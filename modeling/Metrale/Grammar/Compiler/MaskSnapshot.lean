import Metrale.Foundation.ByteCodec
import Metrale.Grammar.Compiler.Mask

/-! # Snapshots of token masks (`compiler/mask_snapshot.rs`)

The masks of the rule cache are written to one file and read by another process.  The writer keeps a digest of what it
was handed, which ends the file; the reader goes through the body and may leave nothing of it. -/

namespace Metrale.Grammar.Compiler

open Foundation Foundation.Reading

def magic : List UInt8 := [77, 69, 84, 82, 76, 71, 77, 49]

def formatVersion : UInt32 := 1

def usizeBits : UInt32 := 64

structure SnapshotIdentity where
  tokenizerFingerprint : UInt64
  vocabSize : UInt64
deriving DecidableEq

def fnvOffset : UInt64 := 0xcbf29ce484222325

def fnvPrime : UInt64 := 0x00000100000001b3

def fnv1a (hash : UInt64) (bytes : List UInt8) : UInt64 :=
  bytes.foldl (fun hash byte => (hash ^^^ byte.toUInt64) * fnvPrime) hash

def fnv1aOf (bytes : List UInt8) : UInt64 := fnv1a fnvOffset bytes

/-! ## Encoding -/

structure Writer where
  buf : List UInt8
  digest : UInt64

namespace Writer

def new : Writer := ⟨[], fnvOffset⟩

def bytes (w : Writer) (b : List UInt8) : Writer := ⟨w.buf ++ b, fnv1a w.digest b⟩

def u8 (w : Writer) (v : UInt8) : Writer := w.bytes [v]

def u32 (w : Writer) (v : UInt32) : Writer := w.bytes (leBytes 4 v.toNat)

def u64 (w : Writer) (v : UInt64) : Writer := w.bytes (leBytes 8 v.toNat)

def i32 (w : Writer) (v : Int32) : Writer := w.bytes (leBytes 4 v.toUInt32.toNat)

def i32Slice (w : Writer) (v : List Int32) : Writer := v.foldl i32 (w.u32 (UInt32.ofNat v.length))

end Writer

def storeTag : StoreType → UInt8
  | .accepted => 0
  | .rejected => 1
  | .acceptedBitset => 2

def storeFromTag (tag : UInt8) : Option StoreType :=
  if tag = 0 then some .accepted else if tag = 1 then some .rejected else if tag = 2 then some .acceptedBitset else none

def Writer.entry (w : Writer) (entry : RuleMaskKey × AdaptiveTokenMask) : Writer :=
  let key := entry.1
  let mask := entry.2
  let w := (((w.u64 key.fsmHash).i32 key.fsmNewNodeId).i32 key.stateCnt).i32 key.edgeCnt
  let w := w.u8 (storeTag mask.storeType)
  let w := ((w.i32Slice mask.acceptedIndices).i32Slice mask.rejectedIndices).i32Slice mask.uncertainIndices
  let words := mask.acceptedBitset.words
  words.foldl Writer.u64 ((w.u64 mask.acceptedBitset.len).u64 (UInt64.ofNat words.length))

def encode (identity : SnapshotIdentity) (entries : List (RuleMaskKey × AdaptiveTokenMask)) : List UInt8 :=
  let w := ((Writer.new.bytes magic).u32 formatVersion).u32 usizeBits
  let w := ((w.u64 identity.tokenizerFingerprint).u64 identity.vocabSize).u64 (UInt64.ofNat entries.length)
  let w := entries.foldl Writer.entry w
  w.buf ++ leBytes 8 w.digest.toNat

/-! ## Decoding -/

def readU8 : Reading UInt8 := do
  let taken ← take 1
  pure (UInt8.ofNat (ofLeBytes taken))

def readU32 : Reading UInt32 := do
  let taken ← take 4
  pure (UInt32.ofNat (ofLeBytes taken))

def readU64 : Reading UInt64 := do
  let taken ← take 8
  pure (UInt64.ofNat (ofLeBytes taken))

def readI32 : Reading Int32 := do
  let taken ← readU32
  pure taken.toInt32

def readI32Vec : Reading (List Int32) := do
  let n ← readU32
  reserve (min n.toNat (2 ^ 20))
  repeated readI32 n.toNat

def readKey : Reading RuleMaskKey := do
  let fsmHash ← readU64
  let fsmNewNodeId ← readI32
  let stateCnt ← readI32
  let edgeCnt ← readI32
  pure ⟨fsmHash, fsmNewNodeId, stateCnt, edgeCnt⟩

def readWords : Reading (List UInt64) := do
  let wordCount ← readU64
  reserve (min wordCount.toNat (2 ^ 20))
  repeated readU64 wordCount.toNat

def readEntry : Reading (RuleMaskKey × AdaptiveTokenMask) := do
  let key ← readKey
  let tag ← readU8
  let storeType ← ofOption (storeFromTag tag)
  let acceptedIndices ← readI32Vec
  let rejectedIndices ← readI32Vec
  let uncertainIndices ← readI32Vec
  let bitLen ← readU64
  let words ← readWords
  let acceptedBitset ← ofOption (BitWords.truncated words bitLen)
  pure (key, ⟨storeType, acceptedIndices, rejectedIndices, acceptedBitset, uncertainIndices⟩)

def readHeader (identity : SnapshotIdentity) : Reading Unit := do
  expect (take 8) magic
  expect readU32 formatVersion
  expect readU32 usizeBits
  expect readU64 identity.tokenizerFingerprint
  expect readU64 identity.vocabSize

def readEntries : Reading (List (RuleMaskKey × AdaptiveTokenMask)) := do
  let count ← readU64
  reserve (min count.toNat (2 ^ 16))
  repeated readEntry count.toNat

def readBody (identity : SnapshotIdentity) : Reading (List (RuleMaskKey × AdaptiveTokenMask)) := do
  readHeader identity
  readEntries

/-- The entries, and the number of elements that room was reserved for on the way. -/
def decodeReserving (bytes : List UInt8) (identity : SnapshotIdentity) : Option (List (RuleMaskKey × AdaptiveTokenMask)) × Nat :=
  if bytes.length < 8 then (none, 0)
  else
    let body := bytes.take (bytes.length - 8)
    let tail := bytes.drop (bytes.length - 8)
    if fnv1aOf body ≠ UInt64.ofNat (ofLeBytes tail) then (none, 0)
    else
      match readBody identity ⟨body, 0⟩ with
      | .error _ after => (none, after.reserved)
      | .ok entries after => if after.rest = [] then (some entries, after.reserved) else (none, after.reserved)

def decode (bytes : List UInt8) (identity : SnapshotIdentity) : Option (List (RuleMaskKey × AdaptiveTokenMask)) :=
  (decodeReserving bytes identity).1

/-! ## What the writer has written -/

section Written

variable {w : Writer} {identity asked : SnapshotIdentity} {entry : RuleMaskKey × AdaptiveTokenMask}
  {entries : List (RuleMaskKey × AdaptiveTokenMask)}

@[simp]
theorem Writer.bytes_bytes (w : Writer) (a b : List UInt8) : (w.bytes a).bytes b = w.bytes (a ++ b) := by
  simp [Writer.bytes, fnv1a]

theorem Writer.foldl_bytes {α : Type} (write : α → List UInt8) (values : List α) (w : Writer) :
    values.foldl (fun w value => w.bytes (write value)) w = w.bytes (values.flatMap write) := by
  induction values generalizing w with
  | nil => simp [Writer.bytes, fnv1a]
  | cons value values ih => rw [List.foldl_cons, ih, bytes_bytes, List.flatMap_cons]

def sliceBytes (v : List Int32) : List UInt8 :=
  leBytes 4 (UInt32.ofNat v.length).toNat ++ v.flatMap fun x => leBytes 4 x.toUInt32.toNat

def keyBytes (key : RuleMaskKey) : List UInt8 :=
  leBytes 8 key.fsmHash.toNat ++ (leBytes 4 key.fsmNewNodeId.toUInt32.toNat ++
    (leBytes 4 key.stateCnt.toUInt32.toNat ++ leBytes 4 key.edgeCnt.toUInt32.toNat))

def wordsBytes (words : List UInt64) : List UInt8 :=
  leBytes 8 (UInt64.ofNat words.length).toNat ++ words.flatMap fun word => leBytes 8 word.toNat

def entryBytes (entry : RuleMaskKey × AdaptiveTokenMask) : List UInt8 :=
  keyBytes entry.1 ++ ([storeTag entry.2.storeType] ++ (sliceBytes entry.2.acceptedIndices ++
    (sliceBytes entry.2.rejectedIndices ++ (sliceBytes entry.2.uncertainIndices ++
      (leBytes 8 entry.2.acceptedBitset.len.toNat ++ wordsBytes entry.2.acceptedBitset.words)))))

def headerBytes (identity : SnapshotIdentity) : List UInt8 :=
  magic ++ (leBytes 4 formatVersion.toNat ++ (leBytes 4 usizeBits.toNat ++
    (leBytes 8 identity.tokenizerFingerprint.toNat ++ leBytes 8 identity.vocabSize.toNat)))

def entriesBytes (entries : List (RuleMaskKey × AdaptiveTokenMask)) : List UInt8 :=
  leBytes 8 (UInt64.ofNat entries.length).toNat ++ entries.flatMap entryBytes

def bodyBytes (identity : SnapshotIdentity) (entries : List (RuleMaskKey × AdaptiveTokenMask)) : List UInt8 :=
  headerBytes identity ++ entriesBytes entries

theorem Writer.i32Slice_eq (v : List Int32) : w.i32Slice v = w.bytes (sliceBytes v) := by
  rw [Writer.i32Slice, Writer.u32, sliceBytes, ← Writer.bytes_bytes]
  exact Writer.foldl_bytes _ v _

theorem Writer.entry_eq : w.entry entry = w.bytes (entryBytes entry) := by
  simp only [Writer.entry, Writer.i32Slice_eq, Writer.u64, Writer.i32, Writer.u8, Writer.bytes_bytes]
  rw [show @Writer.u64 = fun w v => w.bytes (leBytes 8 v.toNat) from rfl, Writer.foldl_bytes, Writer.bytes_bytes]
  simp only [entryBytes, keyBytes, wordsBytes, List.append_assoc]

theorem encode_eq : encode identity entries =
    bodyBytes identity entries ++ leBytes 8 (fnv1aOf (bodyBytes identity entries)).toNat := by
  have written : Writer.entry = fun w entry => w.bytes (entryBytes entry) := by
    funext w entry
    exact Writer.entry_eq
  simp only [encode, written, Writer.foldl_bytes, Writer.u32, Writer.u64, Writer.bytes_bytes]
  simp only [Writer.bytes, Writer.new, fnv1aOf, bodyBytes, headerBytes, entriesBytes, List.append_assoc, List.nil_append]

/-! ## What the reader reads -/

theorem reads_u8 (v : UInt8) : Reads readU8 [v] v := by
  have read := (reads_take [v]).map fun taken => UInt8.ofNat (ofLeBytes taken)
  rwa [show ofLeBytes [v] = v.toNat by simp [ofLeBytes], UInt8.ofNat_toNat] at read

theorem reads_u32 (v : UInt32) : Reads readU32 (leBytes 4 v.toNat) v := by
  have read := (reads_take (leBytes 4 v.toNat)).map fun taken => UInt32.ofNat (ofLeBytes taken)
  rwa [ofLeBytes_leBytes (by simpa using v.toNat_lt), UInt32.ofNat_toNat, length_leBytes] at read

theorem reads_u64 (v : UInt64) : Reads readU64 (leBytes 8 v.toNat) v := by
  have read := (reads_take (leBytes 8 v.toNat)).map fun taken => UInt64.ofNat (ofLeBytes taken)
  rwa [ofLeBytes_leBytes (by simpa using v.toNat_lt), UInt64.ofNat_toNat, length_leBytes] at read

theorem reads_i32 (v : Int32) : Reads readI32 (leBytes 4 v.toUInt32.toNat) v := by
  have read := (reads_u32 v.toUInt32).map UInt32.toInt32
  rwa [Int32.toInt32_toUInt32] at read

theorem reads_i32Vec {v : List Int32} (fits : v.length < 2 ^ 32) : Reads readI32Vec (sliceBytes v) v := by
  have count : (UInt32.ofNat v.length).toNat = v.length := by
    rw [UInt32.toNat_ofNat']
    exact Nat.mod_eq_of_lt fits
  apply (reads_u32 _).bind
  rw [count]
  exact (reads_reserve _).bind (reads_repeated v fun x _ => reads_i32 x)

theorem reads_key (key : RuleMaskKey) : Reads readKey (keyBytes key) key :=
  (reads_u64 _).bind ((reads_i32 _).bind ((reads_i32 _).bind ((reads_i32 _).map _)))

theorem reads_words (bits : BitWords) : Reads readWords (wordsBytes bits.words) bits.words := by
  have count : (UInt64.ofNat bits.words.length).toNat = bits.words.length := by
    have fits := bits.len.toNat_lt
    rw [UInt64.toNat_ofNat', bits.whole]
    exact Nat.mod_eq_of_lt (by omega)
  apply (reads_u64 _).bind
  rw [count]
  exact (reads_reserve _).bind (reads_repeated bits.words fun word _ => reads_u64 word)

@[simp]
theorem storeFromTag_storeTag (t : StoreType) : storeFromTag (storeTag t) = some t := by
  cases t <;> rfl

theorem reads_entry (fits : entry.2.Fits) : Reads readEntry (entryBytes entry) entry := by
  obtain ⟨accepted, rejected, uncertain⟩ := fits
  apply (reads_key _).bind
  apply (reads_u8 _).bind
  rw [storeFromTag_storeTag]
  apply (Reads.pure entry.2.storeType).bind
  apply (reads_i32Vec accepted).bind
  apply (reads_i32Vec rejected).bind
  apply (reads_i32Vec uncertain).bind
  apply (reads_u64 _).bind
  have last : Reads (do
      let words ← readWords
      let acceptedBitset ← ofOption (BitWords.truncated words entry.2.acceptedBitset.len)
      pure (entry.1, ⟨entry.2.storeType, entry.2.acceptedIndices, entry.2.rejectedIndices, acceptedBitset, entry.2.uncertainIndices⟩))
      (wordsBytes entry.2.acceptedBitset.words ++ []) entry := by
    apply (reads_words entry.2.acceptedBitset).bind
    rw [BitWords.truncated_words]
    exact Reads.pure entry
  rwa [List.append_nil] at last

theorem reads_header (identity : SnapshotIdentity) : Reads (readHeader identity) (headerBytes identity) () :=
  (reads_take magic).expect.bind ((reads_u32 _).expect.bind ((reads_u32 _).expect.bind
    ((reads_u64 _).expect.bind (reads_u64 _).expect)))

theorem reads_entries (few : entries.length < 2 ^ 64) (fit : ∀ entry ∈ entries, entry.2.Fits) :
    Reads readEntries (entriesBytes entries) entries := by
  have count : (UInt64.ofNat entries.length).toNat = entries.length := by
    rw [UInt64.toNat_ofNat']
    exact Nat.mod_eq_of_lt few
  apply (reads_u64 _).bind
  rw [count]
  exact (reads_reserve _).bind (reads_repeated entries fun entry among => reads_entry (fit entry among))

theorem reads_body (few : entries.length < 2 ^ 64) (fit : ∀ entry ∈ entries, entry.2.Fits) :
    Reads (readBody identity) (bodyBytes identity entries) entries :=
  (reads_header identity).bind (reads_entries few fit)

theorem identity_of_header {rest : List UInt8} {source after : Source} {answer : Unit} (front : source.rest = headerBytes identity ++ rest)
    (taken : readHeader asked source = .ok answer after) : asked = identity := by
  simp only [headerBytes, List.append_assoc] at front
  obtain ⟨first, front, taken⟩ := (reads_take magic).expect.first front taken
  obtain ⟨second, front, taken⟩ := (reads_u32 formatVersion).expect.first front taken
  obtain ⟨third, front, taken⟩ := (reads_u32 usizeBits).expect.first front taken
  obtain ⟨_, fourth, fingerprint, vocabSize⟩ := bind_ok.mp taken
  obtain ⟨sameFingerprint, front⟩ := (reads_u64 _).unique front (expect_ok.mp fingerprint)
  obtain ⟨sameVocabSize, -⟩ := (reads_u64 _).unique front (expect_ok.mp vocabSize)
  obtain ⟨_, _⟩ := asked
  dsimp only at sameFingerprint sameVocabSize
  rw [sameFingerprint, sameVocabSize]

/-! ## What is left, and what is reserved -/

theorem local_u32 : Local readU32 := (local_take 4).map _

theorem local_u64 : Local readU64 := (local_take 8).map _

theorem local_i32 : Local readI32 := local_u32.map _

theorem local_i32Vec : Local readI32Vec :=
  local_u32.bind fun _ => (local_reserve _).bind fun _ => local_repeated local_i32 _

theorem local_key : Local readKey :=
  local_u64.bind fun _ => local_i32.bind fun _ => local_i32.bind fun _ => local_i32.map _

theorem local_words : Local readWords :=
  local_u64.bind fun _ => (local_reserve _).bind fun _ => local_repeated local_u64 _

theorem local_entry : Local readEntry :=
  local_key.bind fun _ => ((local_take 1).map _).bind fun _ => (local_ofOption _).bind fun _ => local_i32Vec.bind fun _ =>
    local_i32Vec.bind fun _ => local_i32Vec.bind fun _ => local_u64.bind fun _ => local_words.bind fun _ => (local_ofOption _).map _

theorem local_header : Local (readHeader asked) :=
  ((local_take 8).expect _).bind fun _ => (local_u32.expect _).bind fun _ => (local_u32.expect _).bind fun _ =>
    (local_u64.expect _).bind fun _ => local_u64.expect _

theorem local_body : Local (readBody asked) :=
  local_header.bind fun _ => local_u64.bind fun _ => (local_reserve _).bind fun _ => local_repeated local_entry _

theorem plain_u32 : Plain 4 readU32 := (plain_take 4).bind fun _ => Plain.pure _

theorem plain_u64 : Plain 8 readU64 := (plain_take 8).bind fun _ => Plain.pure _

theorem plain_i32 : Plain 4 readI32 := plain_u32.bind fun _ => Plain.pure _

theorem spends_i32Vec : Spends 0 (2 ^ 20) readI32Vec :=
  (plain_u32.spends.mono (Nat.le_refl _) (Nat.zero_le _)).then fun _ => (plain_i32.least (by decide)).spends_counted _ _

theorem spends_words : Spends 0 (2 ^ 20) readWords :=
  (plain_u64.spends.mono (Nat.le_refl _) (Nat.zero_le _)).then fun _ => (plain_u64.least (by decide)).spends_counted _ _

theorem plain_key : Plain 20 readKey :=
  plain_u64.bind fun _ => plain_i32.bind fun _ => plain_i32.bind fun _ => plain_i32.bind fun _ => Plain.pure _

theorem spends_entry : Spends 0 (2 ^ 20) readEntry := by
  have free {α : Type} {read : Reading α} (spends : Spends 0 0 read) : Spends 0 (2 ^ 20) read :=
    spends.mono (Nat.le_refl _) (Nat.zero_le _)
  exact (free plain_key.spends).then fun _ => (free ((plain_take 1).bind fun _ => Plain.pure _).spends).then fun _ =>
    (free (spends_ofOption _)).then fun _ => spends_i32Vec.then fun _ => spends_i32Vec.then fun _ => spends_i32Vec.then fun _ =>
      (free plain_u64.spends).then fun _ => spends_words.then fun _ => (free (spends_ofOption _)).then fun _ => free (Spends.pure _)

theorem spends_header : Spends 0 0 (readHeader asked) :=
  ((spends_take 8).expect _).then fun _ => (plain_u32.spends.expect _).then fun _ => (plain_u32.spends.expect _).then fun _ =>
    (plain_u64.spends.expect _).then fun _ => plain_u64.spends.expect _

theorem spends_body : Spends (2 ^ 16) (2 ^ 16 + 2 ^ 20) (readBody asked) := by
  have entries (count : Nat) : Spends (2 ^ 16) (2 ^ 16 + 2 ^ 20) (do reserve (min count (2 ^ 16)); repeated readEntry count) :=
    ((spends_reserve _).bind fun _ => spends_repeated spends_entry count).mono (by omega) (by omega)
  exact (spends_header.mono (Nat.le_refl _) (Nat.zero_le _)).then fun _ =>
    (plain_u64.spends.mono (Nat.le_refl _) (Nat.zero_le _)).then fun count => entries count.toNat

/-! ## Snapshots -/

theorem decode_eq_some {bytes : List UInt8} : decode bytes asked = some entries ↔ ∃ body digest after,
    bytes = body ++ digest ∧ digest.length = 8 ∧ fnv1aOf body = UInt64.ofNat (ofLeBytes digest) ∧
      readBody asked ⟨body, 0⟩ = .ok entries after ∧ after.rest = [] := by
  constructor
  · intro decoded
    rw [decode, decodeReserving] at decoded
    split at decoded
    · cases decoded
    next long =>
    dsimp only at decoded
    split at decoded
    · cases decoded
    next right =>
    cases outcome : readBody asked ⟨bytes.take (bytes.length - 8), 0⟩ with
    | error answer after =>
      rw [outcome] at decoded
      cases decoded
    | ok found after =>
      rw [outcome] at decoded
      dsimp only at decoded
      split at decoded
      · next nothing =>
        cases decoded
        refine ⟨_, _, after, (List.take_append_drop (bytes.length - 8) bytes).symm, ?_, not_not.mp right, outcome, nothing⟩
        rw [List.length_drop]
        omega
      · cases decoded
  · rintro ⟨body, digest, after, rfl, eight, right, outcome, nothing⟩
    have long : ¬(body ++ digest).length < 8 := by
      rw [List.length_append]
      omega
    have cut : (body ++ digest).length - 8 = body.length := by
      rw [List.length_append]
      omega
    rw [decode, decodeReserving, if_neg long]
    simp only [cut, List.take_left, List.drop_left, right, ne_eq, not_true_eq_false, if_false, outcome, nothing, if_true]

theorem reserved_le (bytes : List UInt8) : (decodeReserving bytes asked).2 ≤ bytes.length + (2 ^ 16 + 2 ^ 20) := by
  rw [decodeReserving]
  split
  · exact Nat.zero_le _
  dsimp only
  split
  · exact Nat.zero_le _
  have spent := @spends_body asked ⟨bytes.take (bytes.length - 8), 0⟩
  have shorter : (bytes.take (bytes.length - 8)).length ≤ bytes.length := List.length_take_le' _ _
  cases outcome : readBody asked ⟨bytes.take (bytes.length - 8), 0⟩ with
  | error answer after =>
    rw [outcome] at spent
    simp only [Ends, Source.held] at spent ⊢
    omega
  | ok found after =>
    rw [outcome] at spent
    simp only [Ends, Source.held] at spent
    dsimp only
    split <;> dsimp only <;> omega

theorem written_of_body (few : entries.length < 2 ^ 64) (fit : ∀ entry ∈ entries, entry.2.Fits)
    {found : List (RuleMaskKey × AdaptiveTokenMask)} {extra : List UInt8} {source after : Source}
    (front : source.rest = bodyBytes identity entries ++ extra) (taken : readBody asked source = .ok found after) :
    asked = identity ∧ found = entries ∧ after.rest = extra := by
  obtain ⟨answer, middle, header, -⟩ := bind_ok.mp taken
  have same : asked = identity := identity_of_header (by rw [front, bodyBytes, List.append_assoc]) header
  subst same
  exact ⟨rfl, (reads_body few fit).unique front taken⟩

theorem length_encode : (encode identity entries).length = (bodyBytes identity entries).length + 8 := by
  rw [encode_eq, List.length_append, length_leBytes]

/-- A snapshot is read back as what was written, for the identity it was written for; nothing shorter, longer or asked
for by another is, and what room is reserved is bounded by the bytes that are there. -/
theorem mask_snapshot (identity : SnapshotIdentity) (entries : List (RuleMaskKey × AdaptiveTokenMask)) (few : entries.length < 2 ^ 64)
    (fit : ∀ entry ∈ entries, entry.2.Fits) :
    decode (encode identity entries) identity = some entries ∧
    (∀ asked, asked ≠ identity → decode (encode identity entries) asked = none) ∧
    (∀ asked bytes, bytes <+: encode identity entries → bytes ≠ encode identity entries → decode bytes asked = none) ∧
    (∀ asked more, more ≠ [] → decode (encode identity entries ++ more) asked = none) ∧
    ∀ asked bytes, (decodeReserving bytes asked).2 ≤ bytes.length + (2 ^ 16 + 2 ^ 20) := by
  refine ⟨?_, ?_, ?_, ?_, fun asked bytes => reserved_le bytes⟩
  · obtain ⟨after, outcome⟩ := @reads_body identity entries few fit [] 0
    rw [List.append_nil] at outcome
    refine decode_eq_some.mpr ⟨_, _, _, encode_eq, length_leBytes 8 _, ?_, outcome, rfl⟩
    rw [ofLeBytes_leBytes (by simpa using UInt64.toNat_lt _), UInt64.ofNat_toNat]
  · intro asked other
    apply Option.eq_none_iff_forall_ne_some.mpr
    intro found decoded
    obtain ⟨body, digest, after, split, eight, -, outcome, -⟩ := decode_eq_some.mp decoded
    rw [encode_eq] at split
    obtain ⟨rfl, -⟩ := List.append_inj' split (by rw [eight, length_leBytes])
    exact other (written_of_body few fit (List.append_nil _).symm outcome).1
  · intro asked bytes front shorter
    apply Option.eq_none_iff_forall_ne_some.mpr
    intro found decoded
    obtain ⟨body, digest, after, rfl, eight, -, outcome, nothing⟩ := decode_eq_some.mp decoded
    have fewer : (body ++ digest).length < (encode identity entries).length := by
      apply lt_of_le_of_ne front.length_le
      exact fun same => shorter (front.eq_of_length same)
    rw [length_encode, List.length_append, eight] at fewer
    have within : body <+: bodyBytes identity entries :=
      List.prefix_of_prefix_length_le ((List.prefix_append body digest).trans front) (encode_eq ▸ List.prefix_append _ _) (by omega)
    obtain ⟨more, whole⟩ := within
    have some : more ≠ [] := by
      rintro rfl
      rw [← whole, List.append_nil] at fewer
      omega
    -- What is read from the prefix is read from the whole body too, with bytes left over.
    obtain ⟨used, all, reads⟩ := local_body _ _ _ outcome
    rw [nothing, List.append_nil] at all
    obtain ⟨_, again⟩ := reads more 0
    have front : (⟨used ++ more, 0⟩ : Source).rest = bodyBytes identity entries ++ [] := by
      rw [List.append_nil, ← whole]
      exact congrArg (· ++ more) all.symm
    exact some (written_of_body few fit front again).2.2
  · intro asked more some
    apply Option.eq_none_iff_forall_ne_some.mpr
    intro found decoded
    obtain ⟨body, digest, after, split, eight, -, outcome, nothing⟩ := decode_eq_some.mp decoded
    have longer := congrArg List.length split
    rw [List.length_append, List.length_append, length_encode, eight] at longer
    have within : bodyBytes identity entries <+: body := by
      apply List.prefix_of_prefix_length_le _ (split ▸ List.prefix_append body digest) (by omega)
      rw [encode_eq, List.append_assoc]
      exact List.prefix_append _ _
    obtain ⟨extra, rfl⟩ := within
    have left := (written_of_body few fit rfl outcome).2.2
    rw [nothing] at left
    rw [← left, List.append_nil] at longer
    exact some (List.length_eq_zero_iff.mp (by omega))

/-- Two masks, of a bit string and of a list. -/
def twoMasks : List (RuleMaskKey × AdaptiveTokenMask) :=
  [(⟨17, 0, 3, 5⟩, ⟨.acceptedBitset, [], [], ⟨[5, 1], 70, rfl⟩, [2]⟩), (⟨40, -1, 2, 2⟩, ⟨.rejected, [], [0, 3], .empty, []⟩)]

theorem mask_snapshot_twoMasks : decode (encode ⟨99, 70⟩ twoMasks) ⟨99, 70⟩ = some twoMasks :=
  (mask_snapshot ⟨99, 70⟩ twoMasks (by decide) (by
    have partitioned : ∀ entry ∈ twoMasks, entry.2.Partitioned := by
      simp [twoMasks, AdaptiveTokenMask.Partitioned, Places]
    exact fun entry among => (partitioned entry among).fits)).1

end Written

end Metrale.Grammar.Compiler

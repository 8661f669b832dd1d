import CquptRaft.Storage.Staging
import CquptRaft.Storage.SnapshotPublish

/-!
# One damaged byte

Both formats carry an FNV-1a checksum. Its step is a bijection of the state, because the prime is
odd, and it is injective in the byte. So one byte that was replaced changes the checksum, whatever
follows it, and the reader of a segment stops at the record, the reader of a snapshot refuses it.
-/

namespace CquptRaft

open Binary Files

/-! ## The checksum -/

/-- The prime has an inverse modulo `2 ^ 32`. -/
theorem mul_prime_injective : Function.Injective fun hash : UInt32 => hash * 16777619 := by
  intro hash hash' h
  have hinverse : (16777619 : UInt32) * 899433627 = 1 := by decide
  have hmul := congrArg (· * (899433627 : UInt32)) h
  simpa only [UInt32.mul_assoc, hinverse, UInt32.mul_one] using hmul

theorem fnv1aAppend_set_ne {data : Bytes} {i : Nat} {b : UInt8} (hi : i < data.length)
    (hb : data[i]? ≠ some b) (hash : UInt32) :
    fnv1aAppend hash (data.set i b) ≠ fnv1aAppend hash data := by
  refine Checksum.foldl_set_ne (fun byte => ?_) (fun hash => ?_) hi hb hash
  · intro hash hash' h
    exact (UInt32.xor_left_inj _).mp (mul_prime_injective h)
  · intro byte byte' h
    have hbyte := congrArg UInt32.toNat ((UInt32.xor_right_inj _).mp (mul_prime_injective h))
    exact UInt8.toNat_inj.mp (by simpa using hbyte)

theorem fnv1aAppend_append (hash : UInt32) (data rest : Bytes) :
    fnv1aAppend (fnv1aAppend hash data) rest = fnv1aAppend hash (data ++ rest) :=
  List.foldl_append.symm

/-- The bytes that the checksum of a record is taken of. -/
def summedBytes (index term data : Bytes) : Bytes :=
  index ++ (term ++ (toBytes 4 kEntryTypeNormal ++ (toBytes 4 data.length ++ data)))

theorem computeEntryChecksum_eq (index term : Nat) (data : Bytes) :
    computeEntryChecksum index term kEntryTypeNormal data.length data =
      fnv1aAppend 2166136261 (summedBytes (toBytes 8 index) (toBytes 8 term) data) := by
  simp only [computeEntryChecksum, summedBytes, fnv1aAppend_append, List.append_assoc]

theorem ofBytes_set_ne {bytes : Bytes} {i : Nat} {b : UInt8} (hi : i < bytes.length)
    (hb : bytes[i]? ≠ some b) : ofBytes (bytes.set i b) ≠ ofBytes bytes := by
  intro heq
  have hback := toBytes_ofBytes (bytes.set i b)
  rw [heq, List.length_set, toBytes_ofBytes] at hback
  refine hb ?_
  rw [hback, List.getElem?_set_self hi]

/-! ## Records -/

/-- A record as it lies in its file. -/
def rawEntry (padding : Nat) (index term checksum data : Bytes) : Bytes :=
  toBytes 4 kSegmentMagic ++ (toBytes 4 kSegmentVersion ++ (index ++ (term ++
    (toBytes 4 kEntryTypeNormal ++ (toBytes 4 data.length ++ (checksum ++
      (toBytes 4 padding ++ data)))))))

/-- The record with the checksum that belongs to it. -/
def signedEntry (padding : Nat) (index term data : Bytes) : Bytes :=
  rawEntry padding index term
    (toBytes 4 (fnv1aAppend 2166136261 (summedBytes index term data)).toNat) data

theorem encodeEntry_eq_signedEntry (padding : LogRecord → Nat) (record : LogRecord) :
    encodeEntry padding record = signedEntry (padding record) (toBytes 8 record.index)
      (toBytes 8 record.term) record.command := by
  simp only [encodeEntry, SegmentEntryHeader.write, SegmentEntryHeader.ofRecord, signedEntry,
    rawEntry, computeEntryChecksum_eq, List.append_assoc]

/-- A record is accepted when its command is short enough and the checksum is right. -/
theorem readEntry_rawEntry (padding : Nat) {index term checksum data : Bytes}
    (hindex : index.length = 8) (hterm : term.length = 8) (hchecksum : checksum.length = 4)
    (hdata : data.length < 2 ^ 32) (rest : Bytes) :
    readEntry (rawEntry padding index term checksum data ++ rest) =
      if kMaxCommandBytes < data.length ∨
          (fnv1aAppend 2166136261 (summedBytes index term data)).toNat ≠ ofBytes checksum then
        .badTail
      else .entry ⟨ofBytes index, ofBytes term, data⟩ rest := by
  have hfield : ∀ {k : Nat} {field : Bytes}, field.length = k → ∀ tail,
      readNat k (field ++ tail) = some (ofBytes field, tail) := by
    rintro k field rfl tail
    exact (if_pos (by simp)).trans (by simp)
  have hread : SegmentEntryHeader.read (rawEntry padding index term checksum data ++ rest) =
      some (⟨kSegmentMagic, kSegmentVersion, ofBytes index, ofBytes term, kEntryTypeNormal,
        data.length, ofBytes checksum⟩, data ++ rest) := by
    simp only [SegmentEntryHeader.read, rawEntry, List.append_assoc,
      readNat_toBytes (k := 4) (show kSegmentMagic < 256 ^ 4 by decide),
      readNat_toBytes (k := 4) (show kSegmentVersion < 256 ^ 4 by decide),
      readNat_toBytes (k := 4) (show kEntryTypeNormal < 256 ^ 4 by decide),
      readNat_toBytes (k := 4) (show data.length < 256 ^ 4 from hdata), hfield hindex, hfield hterm,
      hfield hchecksum, hfield (length_toBytes 4 padding), Option.bind_eq_bind, Option.bind_some,
      Option.pure_def]
  have hne : rawEntry padding index term checksum data ++ rest ≠ [] := by
    simp [rawEntry, toBytes]
  have hback : ∀ {field : Bytes}, field.length = 8 → toBytes 8 (ofBytes field) = field := by
    intro field hlength
    rw [← hlength, toBytes_ofBytes]
  rw [readEntry, if_neg hne, hread]
  simp only [ne_eq, not_true_eq_false, false_or, List.length_append, List.take_left, List.drop_left,
    computeEntryChecksum_eq, hback hindex, hback hterm, Nat.not_lt.mpr (Nat.le_add_right _ _),
    if_false]
  by_cases hmax : kMaxCommandBytes < data.length <;> simp [hmax]

/-- The bytes of the index, the term, the checksum and the command, by their offsets in the
record. -/
def IsChecked (record : LogRecord) (i : Nat) : Prop :=
  8 ≤ i ∧ i < 24 ∨ 32 ≤ i ∧ i < 36 ∨ 40 ≤ i ∧ i < 40 + record.command.length

instance (record : LogRecord) (i : Nat) : Decidable (IsChecked record i) :=
  inferInstanceAs (Decidable (_ ∨ _))

section Parts

variable {padding : Nat} {index term checksum data : Bytes} {i : Nat} {b : UInt8}
  (hindex : index.length = 8) (hterm : term.length = 8) (hchecksum : checksum.length = 4)

include hindex in
theorem rawEntry_set_index (hlow : 8 ≤ i) (hhigh : i < 16) :
    (rawEntry padding index term checksum data).set i b =
        rawEntry padding (index.set (i - 8) b) term checksum data ∧
      (rawEntry padding index term checksum data)[i]? = index[i - 8]? := by
  simp only [rawEntry, List.set_append, List.getElem?_append, length_toBytes, hindex, Nat.sub_sub]
  norm_num [show ¬ i < 4 by omega, show ¬ i - 4 < 4 by omega, show i - 8 < 8 by omega]

include hindex hterm in
theorem rawEntry_set_term (hlow : 16 ≤ i) (hhigh : i < 24) :
    (rawEntry padding index term checksum data).set i b =
        rawEntry padding index (term.set (i - 16) b) checksum data ∧
      (rawEntry padding index term checksum data)[i]? = term[i - 16]? := by
  simp only [rawEntry, List.set_append, List.getElem?_append, length_toBytes, hindex, hterm,
    Nat.sub_sub]
  norm_num [show ¬ i < 4 by omega, show ¬ i - 4 < 4 by omega, show ¬ i - 8 < 8 by omega,
    show i - 16 < 8 by omega]

include hindex hterm hchecksum in
theorem rawEntry_set_checksum (hlow : 32 ≤ i) (hhigh : i < 36) :
    (rawEntry padding index term checksum data).set i b =
        rawEntry padding index term (checksum.set (i - 32) b) data ∧
      (rawEntry padding index term checksum data)[i]? = checksum[i - 32]? := by
  simp only [rawEntry, List.set_append, List.getElem?_append, length_toBytes, hindex, hterm,
    hchecksum, Nat.sub_sub]
  norm_num [show ¬ i < 4 by omega, show ¬ i - 4 < 4 by omega, show ¬ i - 8 < 8 by omega,
    show ¬ i - 16 < 8 by omega, show ¬ i - 24 < 4 by omega, show ¬ i - 28 < 4 by omega,
    show i - 32 < 4 by omega]

include hindex hterm hchecksum in
theorem rawEntry_set_data (hlow : 40 ≤ i) :
    (rawEntry padding index term checksum data).set i b =
        rawEntry padding index term checksum (data.set (i - 40) b) ∧
      (rawEntry padding index term checksum data)[i]? = data[i - 40]? := by
  simp only [rawEntry, List.set_append, List.getElem?_append, length_toBytes, hindex, hterm,
    hchecksum, List.length_set, Nat.sub_sub]
  norm_num [show ¬ i < 4 by omega, show ¬ i - 4 < 4 by omega, show ¬ i - 8 < 8 by omega,
    show ¬ i - 16 < 8 by omega, show ¬ i - 24 < 4 by omega, show ¬ i - 28 < 4 by omega,
    show ¬ i - 32 < 4 by omega, show ¬ i - 36 < 4 by omega]

theorem summedBytes_set_index {j : Nat} (hj : j < index.length) :
    summedBytes (index.set j b) term data = (summedBytes index term data).set j b ∧
      (summedBytes index term data)[j]? = index[j]? := by
  simp [summedBytes, List.getElem?_append, hj]

include hindex in
theorem summedBytes_set_term {j : Nat} (hj : j < term.length) :
    summedBytes index (term.set j b) data = (summedBytes index term data).set (8 + j) b ∧
      (summedBytes index term data)[8 + j]? = term[j]? := by
  simp [summedBytes, List.getElem?_append, hindex, hj]

include hindex hterm in
theorem summedBytes_set_data {j : Nat} :
    summedBytes index term (data.set j b) = (summedBytes index term data).set (24 + j) b ∧
      (summedBytes index term data)[24 + j]? = data[j]? := by
  simp only [summedBytes, List.set_append, List.getElem?_append, List.length_set, length_toBytes,
    hindex, hterm]
  norm_num [show ¬ 24 + j < 8 by omega, show ¬ 24 + j - 8 < 8 by omega,
    show ¬ 24 + j - 8 - 8 < 4 by omega, show ¬ 24 + j - 8 - 8 - 4 < 4 by omega,
    show 24 + j - 8 - 8 - 4 - 4 = j by omega]

end Parts

/-- The checksum that was written does not fit to bytes that were changed in one place. -/
theorem checksum_ne_of_set {summed damaged : Bytes} {j : Nat} {b : UInt8} {old : Option UInt8}
    (hset : damaged = summed.set j b ∧ summed[j]? = old) (hold : old.isSome) (hb : old ≠ some b) :
    (fnv1aAppend 2166136261 damaged).toNat ≠
      ofBytes (toBytes 4 (fnv1aAppend 2166136261 summed).toNat) := by
  obtain ⟨rfl, rfl⟩ := hset
  have hj : j < summed.length := by simpa using hold
  have hlt : (fnv1aAppend 2166136261 summed).toNat < 256 ^ 4 := UInt32.toNat_lt _
  rw [ofBytes_toBytes, Nat.mod_eq_of_lt hlt]
  exact fun heq => fnv1aAppend_set_ne hj hb _ (UInt32.toNat_inj.mp heq)

section Damaged

variable {padding : Nat} {index term data : Bytes} {i : Nat} {b : UInt8}
  (hindex : index.length = 8) (hterm : term.length = 8) (hdata : data.length < 2 ^ 32)

include hindex hterm hdata

theorem readEntry_signedEntry_index (hlow : 8 ≤ i) (hhigh : i < 16)
    (hb : (signedEntry padding index term data)[i]? ≠ some b) (rest : Bytes) :
    readEntry ((signedEntry padding index term data).set i b ++ rest) = .badTail := by
  have hj : i - 8 < index.length := by omega
  rw [signedEntry, (rawEntry_set_index (b := b) hindex hlow hhigh).2] at hb
  rw [signedEntry, (rawEntry_set_index hindex hlow hhigh).1,
    readEntry_rawEntry _ (by simpa using hindex) hterm (length_toBytes 4 _) hdata, if_pos]
  exact .inr (checksum_ne_of_set (summedBytes_set_index hj) (by simp [hj]) hb)

theorem readEntry_signedEntry_term (hlow : 16 ≤ i) (hhigh : i < 24)
    (hb : (signedEntry padding index term data)[i]? ≠ some b) (rest : Bytes) :
    readEntry ((signedEntry padding index term data).set i b ++ rest) = .badTail := by
  have hj : i - 16 < term.length := by omega
  rw [signedEntry, (rawEntry_set_term (b := b) hindex hterm hlow hhigh).2] at hb
  rw [signedEntry, (rawEntry_set_term hindex hterm hlow hhigh).1,
    readEntry_rawEntry _ hindex (by simpa using hterm) (length_toBytes 4 _) hdata, if_pos]
  exact .inr (checksum_ne_of_set (summedBytes_set_term hindex hj) (by simp [hj]) hb)

theorem readEntry_signedEntry_checksum (hlow : 32 ≤ i) (hhigh : i < 36)
    (hb : (signedEntry padding index term data)[i]? ≠ some b) (rest : Bytes) :
    readEntry ((signedEntry padding index term data).set i b ++ rest) = .badTail := by
  have hj : i - 32 < 4 := by omega
  have hlt : (fnv1aAppend 2166136261 (summedBytes index term data)).toNat < 256 ^ 4 :=
    UInt32.toNat_lt _
  rw [signedEntry, (rawEntry_set_checksum (b := b) hindex hterm (length_toBytes 4 _) hlow
    hhigh).2] at hb
  rw [signedEntry, (rawEntry_set_checksum hindex hterm (length_toBytes 4 _) hlow hhigh).1,
    readEntry_rawEntry _ hindex hterm (by simp) hdata, if_pos]
  refine .inr fun heq => ofBytes_set_ne (by simpa using hj) hb ?_
  rw [← heq, ofBytes_toBytes, Nat.mod_eq_of_lt hlt]

theorem readEntry_signedEntry_data (hlow : 40 ≤ i) (hhigh : i < 40 + data.length)
    (hb : (signedEntry padding index term data)[i]? ≠ some b) (rest : Bytes) :
    readEntry ((signedEntry padding index term data).set i b ++ rest) = .badTail := by
  have hj : i - 40 < data.length := by omega
  rw [signedEntry, (rawEntry_set_data (b := b) hindex hterm (length_toBytes 4 _) hlow).2] at hb
  rw [signedEntry, (rawEntry_set_data hindex hterm (length_toBytes 4 _) hlow).1,
    readEntry_rawEntry _ hindex hterm (length_toBytes 4 _) (by simpa using hdata), if_pos]
  exact .inr (checksum_ne_of_set (summedBytes_set_data hindex hterm) (by simp [hj]) hb)

end Damaged

/-- A record with one byte replaced is not accepted. -/
theorem readEntry_damaged {padding : LogRecord → Nat} {record : LogRecord} {i : Nat} {b : UInt8}
    (hsize : record.command.length < 2 ^ 32) (hi : IsChecked record i)
    (hb : (encodeEntry padding record)[i]? ≠ some b) (rest : Bytes) :
    readEntry ((encodeEntry padding record).set i b ++ rest) = .badTail := by
  have hindex := length_toBytes 8 record.index
  have hterm := length_toBytes 8 record.term
  rw [encodeEntry_eq_signedEntry] at hb ⊢
  rcases hi with ⟨hlow, hhigh⟩ | ⟨hlow, hhigh⟩ | ⟨hlow, hhigh⟩
  · rcases Nat.lt_or_ge i 16 with hbelow | habove
    · exact readEntry_signedEntry_index hindex hterm hsize hlow hbelow hb rest
    · exact readEntry_signedEntry_term hindex hterm hsize habove hhigh hb rest
  · exact readEntry_signedEntry_checksum hindex hterm hsize hlow hhigh hb rest
  · exact readEntry_signedEntry_data hindex hterm hsize hlow hhigh hb rest

/-! ## Segments -/

/-- The records that a reader gets to: it stops at the first command that is too long. -/
def readable (records : List LogRecord) : List LogRecord :=
  records.takeWhile fun record => record.command.length ≤ kMaxCommandBytes

/-- The reader takes the records in front of a bad one, and the file is cut behind them. -/
theorem readSegmentLoop_badTail {padding : LogRecord → Nat} {firstLogIndex lastLogIndex : Nat}
    {before : List LogRecord} (hbefore : ∀ record ∈ before, record.index < 2 ^ 64 ∧
      record.term < 2 ^ 64 ∧ record.command.length < 2 ^ 32)
    {bytes : Bytes} (hbad : readEntry bytes = .badTail) {passes : Nat}
    (hpasses : before.length < passes) (lastGoodPos : Nat) (records : List LogRecord) :
    readSegmentLoop firstLogIndex lastLogIndex passes
        (before.flatMap (encodeEntry padding) ++ bytes) lastGoodPos records =
      ⟨records ++ (readable before).filter fun record =>
          firstLogIndex ≤ record.index ∧ record.index ≤ lastLogIndex,
        some (lastGoodPos + ((readable before).flatMap (encodeEntry padding)).length)⟩ := by
  induction before generalizing passes lastGoodPos records with
  | nil =>
    cases passes with
    | zero => simp at hpasses
    | succ passes => simp [readSegmentLoop, hbad, readable]
  | cons record before ih =>
    cases passes with
    | zero => simp at hpasses
    | succ passes =>
      obtain ⟨hindex, hterm, hsize⟩ := hbefore record List.mem_cons_self
      rw [List.flatMap_cons, List.append_assoc, readSegmentLoop]
      by_cases hmax : record.command.length ≤ kMaxCommandBytes
      · rw [readEntry_encodeEntry ⟨hindex, hterm, hmax⟩]
        simp only
        rw [ih (fun r hr => hbefore r (List.mem_cons_of_mem _ hr)) (by simpa using hpasses)]
        have hreadable : readable (record :: before) = record :: readable before := by
          simp [readable, hmax]
        rw [hreadable, List.flatMap_cons]
        by_cases hin : firstLogIndex ≤ record.index ∧ record.index ≤ lastLogIndex
        · simp [hin, Nat.add_assoc]
        · simp [hin, Nat.add_assoc]
      · rw [encodeEntry_eq_signedEntry, signedEntry, readEntry_rawEntry _ (length_toBytes 8 _)
          (length_toBytes 8 _) (length_toBytes 4 _) hsize, if_pos (.inl (Nat.lt_of_not_le hmax))]
        simp [readable, hmax]

/-- Numbers of 64 bits, and a command that `WriteSegments` does not refuse. -/
def LogRecord.Writable (record : LogRecord) : Prop :=
  record.index < 2 ^ 64 ∧ record.term < 2 ^ 64 ∧ record.command.length < 2 ^ 32

theorem readSegmentFile_damaged {padding : LogRecord → Nat} {before : List LogRecord}
    (hbefore : ∀ record ∈ before, record.Writable) {record : LogRecord} (hrecord : record.Writable)
    {i : Nat} {b : UInt8} (hi : IsChecked record i)
    (hb : (encodeEntry padding record)[i]? ≠ some b) (after : Bytes)
    (firstLogIndex lastLogIndex : Nat) (records : List LogRecord) :
    readSegmentFile (before.flatMap (encodeEntry padding) ++
        ((encodeEntry padding record).set i b ++ after)) firstLogIndex lastLogIndex records =
      ⟨records ++ (readable before).filter fun record =>
          firstLogIndex ≤ record.index ∧ record.index ≤ lastLogIndex,
        some ((readable before).flatMap (encodeEntry padding)).length⟩ := by
  have hlen := length_le_flatMap_encodeEntry padding before
  rw [readSegmentFile, readSegmentLoop_badTail hbefore (readEntry_damaged hrecord.2.2 hi hb after)
    (by rw [List.length_append]; omega), Nat.zero_add]

namespace FileRaftStorage

variable {padding : LogRecord → Nat} {log : List LogRecord} {disk disk' : DataDir}
  {w : World Bytes UInt8}

/-- Every file of `log.tmp` is made of whole records of the log. -/
def Segmented (padding : LogRecord → Nat) (log : List LogRecord) (disk : DataDir) : Prop :=
  ∀ name content, disk.readFile (inTempDir name) = some content →
    ∃ chunk : List LogRecord, content = chunk.flatMap (encodeEntry padding) ∧
      ∀ record ∈ chunk, record ∈ log ∧ record.command.length < 2 ^ 32

theorem Segmented.create (h : Segmented padding log disk) {name : Bytes}
    (hdisk : disk.apply (.create (inTempDir name)) = some disk') : Segmented padding log disk' := by
  have hwrite : disk.writeFile (inTempDir name) [] = some disk' := hdisk
  intro name' content hread
  rw [Disk.readFile_writeFile hwrite] at hread
  split at hread
  · cases hread
    exact ⟨[], rfl, by simp⟩
  · exact h name' content hread

theorem Segmented.append (h : Segmented padding log disk) {record : LogRecord}
    (hrecord : record ∈ log) (hsize : record.command.length < 2 ^ 32) {name content : Bytes}
    (hread : disk.readFile (inTempDir name) = some content)
    (hnew : ∀ p, disk'.readFile p = if p = inTempDir name then
      some (content ++ encodeEntry padding record) else disk.readFile p) :
    Segmented padding log disk' := by
  intro name' content' hread'
  rw [hnew] at hread'
  split at hread'
  · obtain ⟨chunk, rfl, hchunk⟩ := h name content hread
    cases hread'
    refine ⟨chunk ++ [record], by simp, fun r hr => ?_⟩
    rcases List.mem_append.mp hr with hr | hr
    · exact hchunk r hr
    · obtain rfl := List.mem_singleton.mp hr
      exact ⟨hrecord, hsize⟩
  · exact h name' content' hread'

open Prog

theorem Segmented.wp_flushSegment (h : Segmented padding log w.disk) (current : Option Bytes) :
    (flushSegment current).Wp (fun _ w' => Segmented padding log w'.disk) (fun _ => True) w := by
  cases current with
  | none => exact wp_pure h
  | some name =>
    show (perform (.sync (inTempDir name))).Wp _ _ _
    refine wp_perform trivial (fun _ => h) fun disk script hdisk => ?_
    obtain rfl := Option.some.inj hdisk
    exact h

theorem Segmented.wp_openSegment (h : Segmented padding log w.disk) (current : Option Bytes)
    (index : Nat) :
    (openSegment current index).Wp (fun _ w' => Segmented padding log w'.disk)
      (fun _ => True) w := by
  refine wp_bind ((h.wp_flushSegment current).imp (fun ok w₁ h₁ => ?_) fun _ => id)
  cases ok with
  | false => exact wp_pure h₁
  | true =>
    refine wp_bind (wp_perform trivial (fun _ => wp_pure h₁) fun disk script hdisk => ?_)
    exact wp_pure (h₁.create hdisk)

/-- The header and the command together are one more record of the file. -/
theorem Segmented.wp_writeRecord (h : Segmented padding log w.disk) {record : LogRecord}
    (hrecord : record ∈ log) (name : Bytes) :
    (writeRecord padding name record).Wp
      (fun ok w' => ok = true → Segmented padding log w'.disk) (fun _ => True) w := by
  unfold writeRecord
  split
  · exact wp_pure (by simp)
  · rename_i hsize
    rw [not_le] at hsize
    refine wp_stepOrFail trivial (fun _ => by simp) fun disk script hdisk => ?_
    obtain ⟨content, hread, hheader⟩ := Disk.readFile_append hdisk
    split
    · rename_i hempty
      refine wp_pure fun _ => h.append hrecord hsize hread fun p => ?_
      rw [hheader, encodeEntry, hempty, List.append_nil]
    · refine wp_perform trivial (fun _ => by simp) fun disk₂ script₂ hdisk₂ _ => ?_
      obtain ⟨content₂, hread₂, hcommand⟩ := Disk.readFile_append hdisk₂
      rw [hheader, if_pos rfl] at hread₂
      cases hread₂
      refine h.append hrecord hsize hread fun p => ?_
      rw [hcommand, hheader, encodeEntry, List.append_assoc]
      split <;> rfl

theorem Segmented.wp_writeSegmentsLoop {rest : List LogRecord}
    (hrest : ∀ record ∈ rest, record ∈ log)
    (h : Segmented padding log w.disk) (current : Option Bytes) (count : Nat) :
    (writeSegmentsLoop padding rest current count).Wp
      (fun ok w' => ok = true → Segmented padding log w'.disk) (fun _ => True) w := by
  induction rest generalizing current count w with
  | nil =>
    refine wp_orFail (h.wp_flushSegment current) (fun _ _ => by simp) fun w₁ h₁ => ?_
    refine wp_perform trivial (fun _ => by simp) fun disk script hdisk => ?_
    obtain rfl := Option.some.inj hdisk
    exact fun _ => h₁
  | cons record rest ih =>
    have hrecord := hrest record List.mem_cons_self
    have hrest' : ∀ r ∈ rest, r ∈ log := fun r hr => hrest r (List.mem_cons_of_mem _ hr)
    unfold writeSegmentsLoop
    split
    · refine wp_bind ((h.wp_openSegment current record.index).imp (fun result w₁ h₁ => ?_)
        fun _ => id)
      cases result with
      | none => exact wp_pure (by simp)
      | some name =>
        exact wp_orFail (h₁.wp_writeRecord hrecord name) (fun _ _ => by simp)
          fun w₂ h₂ => ih hrest' (h₂ rfl) _ _
    · cases current with
      | none => exact wp_pure (by simp)
      | some name =>
        exact wp_orFail (h.wp_writeRecord hrecord name) (fun _ _ => by simp)
          fun w₁ h₁ => ih hrest' (h₁ rfl) _ _

/-- What a run that succeeds leaves in `log.tmp`, when it found it empty. -/
theorem Segmented.of_writeSegments {w₀ : World Bytes UInt8}
    (hempty : ∀ name, w₀.disk.readFile (inTempDir name) = none)
    (hrun : writeSegments padding log w₀ = (some true, w)) : Segmented padding log w.disk := by
  have hstart : Segmented padding log w₀.disk := fun name content hread => by
    rw [hempty name] at hread
    cases hread
  have hspec : (writeSegments padding log).Wp _ _ w₀ :=
    hstart.wp_writeSegmentsLoop (fun _ h => h) none 0
  rw [Wp, hrun] at hspec
  exact hspec rfl

end FileRaftStorage

/-! ## Snapshots -/

namespace FileSnapshotStorage

/-- A snapshot that is accepted is refused with one byte of its data file replaced, also by another
reader that sees the same meta file. -/
theorem readDirectorySnapshot_damaged {read read' : Path Bytes → Option Bytes} {dir : Bytes}
    {m : SnapshotMeta} (h : readDirectorySnapshot read dir = some m)
    (hmeta : read' m.metaPath = read m.metaPath) {data : Bytes}
    (hdata : read m.snapshotPath = some data) {i : Nat} {b : UInt8} (hi : i < data.length)
    (hb : data[i]? ≠ some b) (hset : read' m.snapshotPath = some (data.set i b)) :
    readDirectorySnapshot read' dir = none := by
  obtain ⟨content, hcontent, h⟩ := Option.bind_eq_some_iff.mp h
  obtain ⟨fields, hfields, h⟩ := Option.bind_eq_some_iff.mp h
  obtain ⟨data', hdata', h⟩ := Option.bind_eq_some_iff.mp h
  unfold acceptSnapshotData at h
  split at h
  · rename_i hchecksum
    cases h
    obtain rfl : data' = data := Option.some.inj (hdata'.symm.trans hdata)
    have hne : (computeFileChecksum (data'.set i b)).toNat ≠ fields.checksum := by
      rw [← hchecksum, computeFileChecksum_eq, computeFileChecksum_eq]
      exact fun heq => fnv1aAppend_set_ne hi hb _ (UInt32.toNat_inj.mp heq)
    have hmeta' : read' ⟨some dir, kSnapshotMetaFileName⟩ = some content := hmeta.trans hcontent
    have hset' : read' ⟨some dir, fields.dataFileName⟩ = some (data'.set i b) := hset
    simp only [readDirectorySnapshot, hmeta', hset', hfields, Option.bind_eq_bind,
      Option.bind_some, acceptSnapshotData, if_neg hne]
  · cases h

variable {d : SnapshotDisk} {index term nowMs : Nat} {w : World Bytes UInt8}

/-- A snapshot that was not there before a run of `SaveSnapshotFile` and is there behind it has its
data in `data.bin`. -/
theorem snapshotPath_of_saveSnapshotFile {blocks : Bytes → List Bytes}
    (hblocks : ∀ content, (blocks content).flatten = content) {hasParent : Bool}
    {input : Option (Path Bytes)}
    (hinput : ∀ path, input = some path → ApartFrom d path ∧ path.top ≠ finalDir index)
    (hindex : index < 2 ^ 64) (hterm : term < 2 ^ 64) (hnow : nowMs < 2 ^ 64)
    {script : List Outcome} {result : Option Bool}
    (hrun : saveSnapshotFile blocks hasParent input index term nowMs ⟨d, [], script⟩ = (result, w))
    (hbefore : readDirectorySnapshot d.readFile (finalDir index) = none) {m : SnapshotMeta}
    (hafter : readDirectorySnapshot w.disk.readFile (finalDir index) = some m) :
    m.snapshotPath = ⟨some (finalDir index), kSnapshotDataFileName⟩ ∧
      m.metaPath = ⟨some (finalDir index), kSnapshotMetaFileName⟩ ∧
      (w.disk.readFile m.snapshotPath).isSome := by
  have hleaves : ∀ path, input = some path → Leaves d path index term w.disk := by
    rintro path rfl
    obtain ⟨hapart, hfinal⟩ := hinput path rfl
    have hspec : (saveSnapshotFile blocks hasParent (some path) index term nowMs).Wp _ _
        ⟨d, [], script⟩ :=
      wp_saveSnapshotFile hblocks hapart hfinal hindex hterm hasParent hnow rfl
    rw [Prog.Wp, hrun] at hspec
    cases result with
    | none => exact hspec
    | some ok => exact hspec.1
  cases input with
  | none =>
    cases hrun
    rw [hbefore] at hafter
    cases hafter
  | some path =>
    rw [← snapshotAt_finalDir] at hbefore hafter
    rcases hleaves path rfl with hsame | ⟨data, created, -, hadds⟩
    · rw [hsame.snapshot, hbefore] at hafter
      cases hafter
    · obtain rfl := Option.some.inj (hadds.added.symm.trans hafter)
      exact ⟨rfl, rfl, by rw [hadds.content]; rfl⟩

end FileSnapshotStorage

open FileRaftStorage FileSnapshotStorage in
/-- One replaced byte is always found. In a file that `WriteSegments` has written, a byte of the
index, the term, the checksum or the command of a record: the reader takes the records in front of
it and no other, and cuts the file behind them. In the data file of a snapshot that
`ReadDirectorySnapshot` accepts, any byte: the directory is refused. A snapshot that
`SaveSnapshotFile` has published is of that kind, and `data.bin` is its data file. -/
theorem damaged_byte_found :
    (∀ (padding : LogRecord → Nat) (log : List LogRecord) (w₀ w : World Bytes UInt8)
      (name content : Bytes),
      (∀ record ∈ log, record.index < 2 ^ 64 ∧ record.term < 2 ^ 64) →
      (∀ name, w₀.disk.readFile (inTempDir name) = none) →
      writeSegments padding log w₀ = (some true, w) →
      w.disk.readFile (inTempDir name) = some content →
      ∃ chunk : List LogRecord, content = chunk.flatMap (encodeEntry padding) ∧
        (∀ record ∈ chunk, record ∈ log) ∧
        ∀ before record after i b firstLogIndex lastLogIndex records,
          chunk = before ++ record :: after → IsChecked record i →
          (encodeEntry padding record)[i]? ≠ some b →
          readSegmentFile (before.flatMap (encodeEntry padding) ++
              ((encodeEntry padding record).set i b ++ after.flatMap (encodeEntry padding)))
              firstLogIndex lastLogIndex records =
            ⟨records ++ (readable before).filter fun record =>
                firstLogIndex ≤ record.index ∧ record.index ≤ lastLogIndex,
              some ((readable before).flatMap (encodeEntry padding)).length⟩) ∧
    (∀ (read read' : Path Bytes → Option Bytes) (dir : Bytes) (m : SnapshotMeta) (data : Bytes)
      (i : Nat) (b : UInt8),
      readDirectorySnapshot read dir = some m → read m.snapshotPath = some data →
      i < data.length → data[i]? ≠ some b → read' m.metaPath = read m.metaPath →
      read' m.snapshotPath = some (data.set i b) → readDirectorySnapshot read' dir = none) ∧
    (∀ (blocks : Bytes → List Bytes) (d : SnapshotDisk) (hasParent : Bool)
      (input : Option (Path Bytes)) (index term nowMs : Nat) (script : List Outcome)
      (result : Option Bool) (w : World Bytes UInt8) (m : SnapshotMeta),
      (∀ content, (blocks content).flatten = content) →
      (∀ path, input = some path → ApartFrom d path ∧ path.top ≠ finalDir index) →
      index < 2 ^ 64 → term < 2 ^ 64 → nowMs < 2 ^ 64 →
      FileSnapshotStorage.saveSnapshotFile blocks hasParent input index term nowMs ⟨d, [], script⟩ =
        (result, w) →
      readDirectorySnapshot d.readFile (finalDir index) = none →
      readDirectorySnapshot w.disk.readFile (finalDir index) = some m →
      ∃ data, w.disk.readFile ⟨some (finalDir index), kSnapshotDataFileName⟩ = some data ∧
        ∀ (read : Path Bytes → Option Bytes) (i : Nat) (b : UInt8),
          i < data.length → data[i]? ≠ some b →
          read ⟨some (finalDir index), kSnapshotMetaFileName⟩ =
            w.disk.readFile ⟨some (finalDir index), kSnapshotMetaFileName⟩ →
          read ⟨some (finalDir index), kSnapshotDataFileName⟩ = some (data.set i b) →
          readDirectorySnapshot read (finalDir index) = none) := by
  refine ⟨?_, ?_, ?_⟩
  · intro padding log w₀ w name content hnumbers hempty hrun hread
    obtain ⟨chunk, rfl, hchunk⟩ := Segmented.of_writeSegments hempty hrun name content hread
    refine ⟨chunk, rfl, fun record hmem => (hchunk record hmem).1, ?_⟩
    rintro before record after i b firstLogIndex lastLogIndex records rfl hi hb
    have hwritable : ∀ r ∈ before ++ record :: after, r.Writable := fun r hr =>
      ⟨(hnumbers r (hchunk r hr).1).1, (hnumbers r (hchunk r hr).1).2, (hchunk r hr).2⟩
    exact readSegmentFile_damaged (fun r hr => hwritable r (List.mem_append_left _ hr))
      (hwritable record (List.mem_append_right _ List.mem_cons_self)) hi hb _ _ _ _
  · intro read read' dir m data i b haccepted hdata hi hb hmeta hset
    exact readDirectorySnapshot_damaged haccepted hmeta hdata hi hb hset
  · intro blocks d hasParent input index term nowMs script result w m hblocks hinput hindex hterm
      hnow hrun hbefore hafter
    obtain ⟨hpath, hmetaPath, hsome⟩ := snapshotPath_of_saveSnapshotFile hblocks hinput hindex hterm
      hnow hrun hbefore hafter
    obtain ⟨data, hdata⟩ := Option.isSome_iff_exists.mp hsome
    refine ⟨data, hpath ▸ hdata, fun read i b hi hb hmeta hset => ?_⟩
    exact readDirectorySnapshot_damaged hafter (hmetaPath ▸ hmeta) hdata hi hb (hpath ▸ hset)

/-- An empty `log.tmp`, and every step takes effect. -/
def emptyTempDir : World Bytes UInt8 :=
  ⟨(∅ : DataDir).insert kLogTempDirName (.dir ∅), [], List.replicate 20 .ok⟩

def twoRecords : List LogRecord := [⟨1, 1, ascii "a"⟩, ⟨2, 1, ascii "bc"⟩]

open FileRaftStorage FileSnapshotStorage in
theorem damaged_byte_found_sample :
    (∃ chunk : List LogRecord,
      (writeSegments (fun _ => 0) twoRecords emptyTempDir).2.disk.readFile
        (inTempDir (segmentFileName 1)) = some (chunk.flatMap (encodeEntry fun _ => 0)) ∧
      ∀ before record after i b, chunk = before ++ record :: after → IsChecked record i →
        (encodeEntry (fun _ => 0) record)[i]? ≠ some b →
        (readSegmentFile (before.flatMap (encodeEntry fun _ => 0) ++
          ((encodeEntry (fun _ => 0) record).set i b ++ after.flatMap (encodeEntry fun _ => 0)))
          1 2 []).cut.isSome) ∧
    ∃ data, (sampleSave (List.replicate 60 .ok)).2.disk.readFile
        ⟨some (finalDir 7), kSnapshotDataFileName⟩ = some data ∧
      ∀ (read : Path Bytes → Option Bytes) (i : Nat) (b : UInt8),
        i < data.length → data[i]? ≠ some b →
        read ⟨some (finalDir 7), kSnapshotMetaFileName⟩ =
          (sampleSave (List.replicate 60 .ok)).2.disk.readFile
            ⟨some (finalDir 7), kSnapshotMetaFileName⟩ →
        read ⟨some (finalDir 7), kSnapshotDataFileName⟩ = some (data.set i b) →
        readDirectorySnapshot read (finalDir 7) = none := by
  obtain ⟨hsegments, -, hsnapshots⟩ := damaged_byte_found
  refine ⟨?_, ?_⟩
  · have hok : (writeSegments (fun _ => 0) twoRecords emptyTempDir).1 = some true := by
      decide +kernel
    have hsome : ((writeSegments (fun _ => 0) twoRecords emptyTempDir).2.disk.readFile
        (inTempDir (segmentFileName 1))).isSome := by decide +kernel
    obtain ⟨content, hcontent⟩ := Option.isSome_iff_exists.mp hsome
    have hempty : ∀ name, emptyTempDir.disk.readFile (inTempDir name) = none := by
      intro name
      simp only [emptyTempDir, inTempDir, Disk.readFile, AList.lookup_insert]
      rfl
    have hrun := (Prod.mk.eta (p := writeSegments (fun _ => 0) twoRecords emptyTempDir)).symm
    rw [hok] at hrun
    obtain ⟨chunk, rfl, -, hdamaged⟩ := hsegments (fun _ => 0) twoRecords emptyTempDir _ _ content
      (by decide) hempty hrun hcontent
    refine ⟨chunk, hcontent, fun before record after i b hsplit hi hb => ?_⟩
    rw [hdamaged before record after i b 1 2 [] hsplit hi hb]
    rfl
  · have hinput : ∀ path, some (⟨none, ascii "work.tmp"⟩ : Path Bytes) = some path →
        ApartFrom sampleDisk path ∧ path.top ≠ finalDir 7 := by
      rintro path heq
      obtain rfl := Option.some.inj heq
      refine ⟨?_, by decide +kernel⟩
      show ∀ m ∈ FileSnapshotStorage.listSnapshots sampleDisk, _
      decide +kernel
    have hafter : readDirectorySnapshot (sampleSave (List.replicate 60 .ok)).2.disk.readFile
        (finalDir 7) = some (newSnapshot 7 2 1000 (ascii "seven")) := by decide +kernel
    have hok : (sampleSave (List.replicate 60 .ok)).1 = some true := by decide +kernel
    have hbefore : readDirectorySnapshot sampleDisk.readFile (finalDir 7) = none := by
      decide +kernel
    exact hsnapshots (fun content => [content]) sampleDisk true (some ⟨none, ascii "work.tmp"⟩) 7 2
      1000 (List.replicate 60 .ok) (some true) (sampleSave (List.replicate 60 .ok)).2
      (newSnapshot 7 2 1000 (ascii "seven")) (by simp) hinput (by norm_num) (by norm_num)
      (by norm_num) (sampleSave_eq hok) hbefore hafter

end CquptRaft

import UnDOS.Fat.Geometry
import UnDOS.Lib.Hoare

/-!
# Entries of the FAT

`FAT_SetCluster` against `FAT_GetNextCluster`.  The writer addresses the two or four bytes of
an entry from the start of the device, in every copy of the FAT; the reader reads two sectors of
the first copy and takes the entry out of them.
-/

namespace UnDOS.Fat

open UnDOS.Lib
open UnDOS.Kernel (KernelError)

/-! ## The writer -/

/-- A mounted volume and its device. -/
structure Mount (D : Type) where
  vol : Volume
  device : D

/-- `FAT_SetCluster` on the little-endian number in the bytes of the entry. -/
def Volume.mergeEntry (vol : Volume) (cluster raw value : Nat) : Nat :=
  match vol.type with
  | .fat12 =>
    if cluster &&& 1 ≠ 0 then (raw &&& 0x000f) ||| ((value &&& 0xfff) <<< 4)
    else (raw &&& 0xf000) ||| (value &&& 0xfff)
  | .fat16 => value &&& 0xffff
  | _ => (raw &&& 0xf0000000) ||| (value &&& 0x0fffffff)

/-- The signatures of an FSInfo sector. -/
def hasFsInfoSignature (bytes : List UInt8) : Bool :=
  bytes.take 4 == [0x52, 0x52, 0x61, 0x41] && (bytes.drop 484).take 4 == [0x72, 0x72, 0x41, 0x61]

namespace Mount
variable {D : Type} (io : Device D)

/-- `KE_IO_ReadDevice` for a number of bytes that must all be there. -/
def readExactly (address length : Nat) : Prog (Mount D) KernelError (List UInt8) := do
  let bytes ← Prog.ofExcept (io.read (← Prog.get).device address length)
  if bytes.length ≠ length then Prog.throw .unexpectedEndOfFile else pure bytes

/-- `FAT_WriteBytes` on the mounted volume. -/
def write (address : Nat) (bytes : List UInt8) : Prog (Mount D) KernelError Unit := fun s =>
  match writeBytes io s.vol s.device address bytes with
  | (.ok (), vol, d) => (.ok (), ⟨vol, d⟩)
  | (.error e, vol, d) => (.err e, ⟨vol, d⟩)

/-- One FSInfo sector: the free count and the hint for the next free cluster are cleared. -/
def clearFsInfo (vol : Volume) (sector : Nat) : Prog (Mount D) KernelError Unit :=
  if sector = 0 then pure ()
  else do
    let address := sector * vol.bytesPerSector
    let bytes ← readExactly io address 512
    if !hasFsInfoSignature bytes then pure ()
    else write io address (bytes.take 488 ++ List.replicate 8 0xff ++ bytes.drop 496)

/-- FAT32's cached free count and next-free hint must not survive allocation changes. -/
def invalidateFsInfo (vol : Volume) : Prog (Mount D) KernelError Unit :=
  if vol.fsInfoInvalidated then pure ()
  else do
    clearFsInfo io vol vol.fsInfoSector
    clearFsInfo io vol vol.backupFsInfoSector
    Prog.modify fun s => { s with vol := { s.vol with fsInfoInvalidated := true } }

/-- The entry of `cluster` in one copy of the FAT. -/
def setCopy (vol : Volume) (cluster value copy : Nat) : Prog (Mount D) KernelError Unit := do
  let address := vol.entryAddress copy cluster
  let bytes ← readExactly io address vol.entryWidth
  write io address (leBytes vol.entryWidth (vol.mergeEntry cluster (leNat bytes) value))

/-- The loop over the copies. -/
def setCopies (vol : Volume) (cluster value : Nat) : List Nat → Prog (Mount D) KernelError Unit
  | [] => pure ()
  | copy :: copies => do
    setCopy io vol cluster value copy
    setCopies vol cluster value copies

/-- `FAT_SetCluster`. -/
def setCluster (cluster value : Nat) : Prog (Mount D) KernelError Unit := do
  let vol := (← Prog.get).vol
  if !vol.validCluster cluster || vol.type == .exFat then Prog.throw .invalidFormat
  else do
    invalidateFsInfo io vol
    setCopies io vol cluster value (List.range vol.numFATs)

end Mount

/-! ## The codec -/

/-- The value that an entry of the volume's type can hold. -/
def Volume.maskValue (vol : Volume) (value : Nat) : Nat :=
  match vol.type with
  | .fat12 => value % 2 ^ 12
  | .fat16 => value % 2 ^ 16
  | _ => value % 2 ^ 28

theorem and_high_bits {a k n : Nat} (h : a < 2 ^ (k + n)) :
    a &&& ((2 ^ n - 1) <<< k) = a / 2 ^ k * 2 ^ k := by
  apply Nat.eq_of_testBit_eq
  intro i
  rw [Nat.testBit_and, Nat.testBit_shiftLeft, Nat.testBit_mul_two_pow,
    Nat.testBit_div_two_pow]
  by_cases hi : k ≤ i
  · rw [Nat.sub_add_cancel hi]
    by_cases hn : i - k < n
    · simp [hi, hn]
    · have hzero : a.testBit i = false :=
        Nat.testBit_lt_two_pow (h.trans_le (Nat.pow_le_pow_right (by decide) (by omega)))
      simp [hzero]
  · simp [hi]

theorem mul_or_of_lt {a b k : Nat} (h : b < 2 ^ k) : a * 2 ^ k ||| b = a * 2 ^ k + b := by
  rw [mul_comm, Nat.two_pow_add_eq_or_of_lt h]

namespace Volume
variable (vol : Volume) (cluster raw value : Nat)

theorem entryWidth_bounds : 0 < vol.entryWidth ∧ vol.entryWidth ≤ 4 := by
  unfold entryWidth
  split <;> decide

theorem mergeEntry_fat12_odd (htype : vol.type = .fat12) (hodd : cluster % 2 = 1) :
    vol.mergeEntry cluster raw value = value % 2 ^ 12 * 2 ^ 4 + raw % 2 ^ 4 := by
  have hbit : cluster &&& 1 ≠ 0 := by
    rw [Nat.and_one_is_mod, hodd]
    decide
  have hraw : raw &&& 0x000f = raw % 2 ^ 4 := Nat.and_two_pow_sub_one_eq_mod raw 4
  have hvalue : value &&& 0xfff = value % 2 ^ 12 := Nat.and_two_pow_sub_one_eq_mod value 12
  simp only [mergeEntry, htype]
  rw [if_pos hbit, hraw, hvalue, Nat.or_comm, Nat.shiftLeft_eq,
    mul_or_of_lt (Nat.mod_lt _ (by decide))]

theorem mergeEntry_fat12_even (htype : vol.type = .fat12) (heven : cluster % 2 = 0)
    (hraw : raw < 2 ^ 16) :
    vol.mergeEntry cluster raw value = raw / 2 ^ 12 * 2 ^ 12 + value % 2 ^ 12 := by
  have hbit : ¬(cluster &&& 1 ≠ 0) := by
    rw [Nat.and_one_is_mod, heven]
    decide
  have hhigh : raw &&& 0xf000 = raw / 2 ^ 12 * 2 ^ 12 := and_high_bits (k := 12) (n := 4) hraw
  have hvalue : value &&& 0xfff = value % 2 ^ 12 := Nat.and_two_pow_sub_one_eq_mod value 12
  simp only [mergeEntry, htype]
  rw [if_neg hbit, hhigh, hvalue, mul_or_of_lt (Nat.mod_lt _ (by decide))]

theorem mergeEntry_fat16 (htype : vol.type = .fat16) :
    vol.mergeEntry cluster raw value = value % 2 ^ 16 := by
  simp only [mergeEntry, htype]
  exact Nat.and_two_pow_sub_one_eq_mod value 16

theorem mergeEntry_fat32 (htype : vol.type = .fat32) (hraw : raw < 2 ^ 32) :
    vol.mergeEntry cluster raw value = raw / 2 ^ 28 * 2 ^ 28 + value % 2 ^ 28 := by
  have hhigh : raw &&& 0xf0000000 = raw / 2 ^ 28 * 2 ^ 28 := and_high_bits (k := 28) (n := 4) hraw
  have hvalue : value &&& 0x0fffffff = value % 2 ^ 28 := Nat.and_two_pow_sub_one_eq_mod value 28
  simp only [mergeEntry, htype]
  rw [hhigh, hvalue, mul_or_of_lt (Nat.mod_lt _ (by decide))]

variable {vol cluster raw value}

theorem mergeEntry_lt (htype : vol.type ≠ .exFat) (hraw : raw < 256 ^ vol.entryWidth) :
    vol.mergeEntry cluster raw value < 256 ^ vol.entryWidth := by
  unfold entryWidth at hraw ⊢
  cases h : vol.type with
  | fat12 =>
    simp only [h] at hraw ⊢
    rcases Nat.mod_two_eq_zero_or_one cluster with heven | hodd
    · rw [mergeEntry_fat12_even vol cluster raw value h heven hraw]
      omega
    · rw [mergeEntry_fat12_odd vol cluster raw value h hodd]
      omega
  | fat16 =>
    rw [mergeEntry_fat16 vol cluster raw value h]
    exact Nat.mod_lt _ (by decide)
  | fat32 =>
    simp only [h] at hraw ⊢
    rw [mergeEntry_fat32 vol cluster raw value h hraw]
    omega
  | exFat => exact absurd h htype

/-- What was written is read back. -/
theorem entryValue_mergeEntry (htype : vol.type ≠ .exFat) (hraw : raw < 256 ^ vol.entryWidth) :
    vol.entryValue cluster (vol.mergeEntry cluster raw value) = vol.maskValue value := by
  unfold entryWidth at hraw
  unfold entryValue maskValue
  cases h : vol.type with
  | fat12 =>
    simp only [h] at hraw ⊢
    rcases Nat.mod_two_eq_zero_or_one cluster with heven | hodd
    · rw [mergeEntry_fat12_even vol cluster raw value h heven hraw, heven, if_neg (by decide)]
      omega
    · rw [mergeEntry_fat12_odd vol cluster raw value h hodd, hodd, if_pos rfl]
      omega
  | fat16 => exact mergeEntry_fat16 vol cluster raw value h
  | fat32 =>
    simp only [h] at hraw ⊢
    rw [mergeEntry_fat32 vol cluster raw value h hraw]
    omega
  | exFat => exact absurd h htype

end Volume

/-! ## Stores with entries -/

theorem wordAt_two (m : ByteStore) (o : Nat) :
    wordAt m o 2 = (m o).toNat + 256 * (m (o + 1)).toNat := by
  simp only [wordAt, readAt, leNat, mul_zero, add_zero]

/-- The entries of `cluster` at the addresses `places` are merged with `value`, and no other byte
changes. -/
structure Patched (vol : Volume) (cluster value : Nat) (places : List Nat) (m m' : ByteStore) :
    Prop where
  word : ∀ o ∈ places, wordAt m' o vol.entryWidth =
    vol.mergeEntry cluster (wordAt m o vol.entryWidth) value
  frame : ∀ i, (∀ o ∈ places, i < o ∨ o + vol.entryWidth ≤ i) → m' i = m i

namespace Patched
variable {vol : Volume} {cluster value : Nat} {m m' m'' : ByteStore}

theorem nil : Patched vol cluster value [] m m :=
  ⟨fun _ ho => absurd ho List.not_mem_nil, fun _ _ => rfl⟩

theorem wordAt_eq {places : List Nat} (h : Patched vol cluster value places m m') {o n : Nat}
    (haway : ∀ p ∈ places, o + n ≤ p ∨ p + vol.entryWidth ≤ o) : wordAt m' o n = wordAt m o n := by
  unfold wordAt
  rw [readAt_congr fun i hi => h.frame (o + i) fun p hp => ?_]
  rcases haway p hp with hbelow | habove
  · exact .inl (by omega)
  · exact .inr (by omega)

theorem cons (htype : vol.type ≠ .exFat) {o : Nat} {places : List Nat}
    (hrest : Patched vol cluster value places (writeAt m o (leBytes vol.entryWidth
        (vol.mergeEntry cluster (wordAt m o vol.entryWidth) value))) m')
    (haway : ∀ p ∈ places, o + vol.entryWidth ≤ p ∨ p + vol.entryWidth ≤ o) :
    Patched vol cluster value (o :: places) m m' where
  word := by
    intro p hp
    rcases List.mem_cons.mp hp with rfl | hp
    · rw [hrest.wordAt_eq haway, wordAt_writeAt_self,
        Nat.mod_eq_of_lt (Volume.mergeEntry_lt htype (wordAt_lt ..))]
    · rw [hrest.word p hp, wordAt_writeAt_of_disjoint]
      rw [leBytes_length]
      exact (haway p hp).symm
  frame := by
    intro i hi
    have hhead := hi o (.head _)
    rw [hrest.frame i fun p hp => hi p (.tail _ hp)]
    rcases hhead with hlt | hge
    · exact writeAt_of_lt hlt
    · exact writeAt_of_ge (by rwa [leBytes_length])

end Patched

/-! ## The device -/

/-- A device of `size` bytes.  A read stops at its end; a write may fail, and then nothing is
said about what it left. -/
structure Storage {D : Type} (io : Device D) (size : Nat) where
  contents : D → ByteStore
  read : ∀ d offset length,
    io.read d offset length = .ok (readAt (contents d) offset (min length (size - offset)))
  write : ∀ d offset data d', io.write d offset data = (.ok data.length, d') →
    contents d' = writeAt (contents d) offset data

theorem invalidateTraversal_fixedFields (vol : Volume) :
    (invalidateTraversal vol).fixedFields = vol.fixedFields := by
  unfold invalidateTraversal
  split_ifs <;> rfl

/-- The free count and the next hint of the FSInfo sectors. -/
def Volume.IsFreeCount (vol : Volume) (i : Nat) : Prop :=
  ∃ sector ∈ [vol.fsInfoSector, vol.backupFsInfoSector], sector ≠ 0 ∧
    sector * vol.bytesPerSector + 488 ≤ i ∧ i < sector * vol.bytesPerSector + 496

theorem writeAt_clearFsInfo (m : ByteStore) {a i : Nat} (hi : i < a + 488 ∨ a + 496 ≤ i) :
    writeAt m a ((readAt m a 512).take 488 ++ List.replicate 8 0xff ++ (readAt m a 512).drop 496)
      i =
      m i := by
  have hhead : ((readAt m a 512).take 488).length = 488 := by
    rw [List.length_take, readAt_length]
    rfl
  have hmiddle : ((readAt m a 512).take 488 ++ List.replicate 8 0xff).length = 496 := by
    rw [List.length_append, hhead, List.length_replicate]
  have hlength : ((readAt m a 512).take 488 ++ List.replicate 8 0xff ++
      (readAt m a 512).drop 496).length = 512 := by
    rw [List.length_append, hmiddle, List.length_drop, readAt_length]
  by_cases hbefore : i < a
  · exact writeAt_of_lt hbefore
  by_cases hafter : a + 512 ≤ i
  · exact writeAt_of_ge (by rwa [hlength])
  obtain ⟨k, rfl⟩ := Nat.exists_eq_add_of_le (not_lt.mp hbefore)
  rw [writeAt_inside (by rw [hlength]; omega), List.getD_eq_getElem?_getD]
  rcases hi with hlow | hhigh
  · rw [List.append_assoc, List.getElem?_append_left (by rw [hhead]; omega),
      List.getElem?_take_of_lt (by omega), ← List.getD_eq_getElem?_getD,
      readAt_getD m (by omega)]
  · have hplace : 496 + (k - 496) = k := by omega
    rw [List.getElem?_append_right (by rw [hmiddle]; omega), hmiddle, List.getElem?_drop, hplace,
      ← List.getD_eq_getElem?_getD, readAt_getD m (by omega)]

namespace Storage
variable {D : Type} {io : Device D} {size : Nat} (storage : Storage io size) {vol : Volume}

/-- A mount of the volume `vol` with the bytes `m`. -/
def Shows (vol : Volume) (m : ByteStore) (s : Mount D) : Prop :=
  s.vol.fixedFields = vol.fixedFields ∧ storage.contents s.device = m

/-- Errors may leave anything. -/
abbrev anyError : KernelError → Mount D → Prop := fun _ _ => True

variable {m : ByteStore}

theorem readExactly_triple {address length : Nat} (hlength : 0 < length) :
    Prog.Triple (storage.Shows vol m) (Mount.readExactly io address length)
      (fun bytes s => storage.Shows vol m s ∧ bytes = readAt m address length ∧
        address + length ≤ size) anyError := by
  intro s hs
  unfold Mount.readExactly
  rw [Prog.get_bind_apply, storage.read, hs.2]
  dsimp only [Prog.ofExcept]
  rw [Prog.pure_bind_apply, readAt_length]
  split_ifs with hshort
  · trivial
  · have hmin : min length (size - address) = length := not_not.mp hshort
    rw [hmin]
    exact ⟨hs, rfl, by omega⟩

theorem write_triple {address : Nat} {bytes : List UInt8} :
    Prog.Triple (storage.Shows vol m) (Mount.write io address bytes)
      (fun _ => storage.Shows vol (writeAt m address bytes)) anyError := by
  intro s hs
  unfold Mount.write writeBytes
  rcases hwrite : io.write s.device address bytes with ⟨_ | transferred, d⟩
  · trivial
  · dsimp only
    by_cases hall : transferred = bytes.length
    · subst hall
      rw [if_pos rfl]
      refine ⟨(invalidateTraversal_fixedFields _).trans hs.1, ?_⟩
      rw [← hs.2]
      exact storage.write _ _ _ _ hwrite
    · rw [if_neg hall]
      trivial

theorem clearFsInfo_triple {sector : Nat}
    (hsector : sector ∈ [vol.fsInfoSector, vol.backupFsInfoSector]) :
    Prog.Triple (storage.Shows vol m) (Mount.clearFsInfo io vol sector)
      (fun _ s => ∃ m', storage.Shows vol m' s ∧ ∀ i, ¬vol.IsFreeCount i → m' i = m i)
      anyError := by
  refine .ite (fun _ => .pure fun s hs => ⟨m, hs, fun _ _ => rfl⟩) fun hne => ?_
  refine .bind (storage.readExactly_triple (by decide)) fun bytes => ?_
  refine .ite (fun _ => .pure fun s hs => ⟨m, hs.1, fun _ _ => rfl⟩) fun _ => ?_
  rintro s ⟨hs, rfl, -⟩
  refine storage.write_triple.weaken (fun _ => id) ?_ (fun _ _ => id) s hs
  intro _ s' hs'
  refine ⟨_, hs', fun i hi => writeAt_clearFsInfo m ?_⟩
  by_contra hin
  exact hi ⟨sector, hsector, hne, by omega⟩

theorem invalidateFsInfo_triple : Prog.Triple (storage.Shows vol m) (Mount.invalidateFsInfo io vol)
      (fun _ s => ∃ m', storage.Shows vol m' s ∧ ∀ i, ¬vol.IsFreeCount i → m' i = m i)
      anyError := by
  refine .ite (fun _ => .pure fun s hs => ⟨m, hs, fun _ _ => rfl⟩) fun _ => ?_
  refine .bind (storage.clearFsInfo_triple (.head _)) fun _ => ?_
  rintro s ⟨m₁, hs, hsame₁⟩
  have hmem : vol.backupFsInfoSector ∈ [vol.fsInfoSector, vol.backupFsInfoSector] :=
    .tail _ (.head _)
  refine Prog.Triple.bind (storage.clearFsInfo_triple hmem) (fun _ => .modify ?_) s hs
  rintro t ⟨m₂, ht, hsame₂⟩
  exact ⟨m₂, ht, fun i hi => (hsame₂ i hi).trans (hsame₁ i hi)⟩

theorem setCopy_triple {cluster value copy : Nat} :
    Prog.Triple (storage.Shows vol m) (Mount.setCopy io vol cluster value copy)
      (fun _ s => vol.entryAddress copy cluster + vol.entryWidth ≤ size ∧
        storage.Shows vol (writeAt m (vol.entryAddress copy cluster)
          (leBytes vol.entryWidth (vol.mergeEntry cluster
            (wordAt m (vol.entryAddress copy cluster) vol.entryWidth) value))) s) anyError := by
  refine .bind (storage.readExactly_triple vol.entryWidth_bounds.1) fun bytes => ?_
  rintro s ⟨hs, rfl, hfits⟩
  exact storage.write_triple.weaken (fun _ => id) (fun _ _ hs' => ⟨hfits, hs'⟩) (fun _ _ => id) s hs

theorem setCopies_triple (htype : vol.type ≠ .exFat) {cluster value : Nat} {copies : List Nat}
    (happart : copies.Pairwise fun a b =>
      vol.entryAddress a cluster + vol.entryWidth ≤ vol.entryAddress b cluster) (m : ByteStore) :
    Prog.Triple (storage.Shows vol m) (Mount.setCopies io vol cluster value copies)
      (fun _ s => (∀ a ∈ copies, vol.entryAddress a cluster + vol.entryWidth ≤ size) ∧
        ∃ m', storage.Shows vol m' s ∧
          Patched vol cluster value (copies.map fun a => vol.entryAddress a cluster) m m')
      anyError := by
  induction copies generalizing m with
  | nil =>
    exact .pure fun s hs => ⟨fun _ ha => absurd ha List.not_mem_nil, m, hs, Patched.nil⟩
  | cons copy copies ih =>
    obtain ⟨hfirst, hrest⟩ := List.pairwise_cons.mp happart
    refine .bind storage.setCopy_triple fun _ => ?_
    rintro s ⟨hfits, hs⟩
    refine (ih hrest _).weaken (fun _ => id) ?_ (fun _ _ => id) s hs
    rintro _ s' ⟨hall, m', hs', hpatched⟩
    refine ⟨List.forall_mem_cons.mpr ⟨hfits, hall⟩, m', hs', hpatched.cons htype ?_⟩
    intro p hp
    obtain ⟨other, hother, rfl⟩ := List.mem_map.mp hp
    exact .inl (hfirst other hother)

end Storage

/-! ## The reader -/

namespace Volume.Laid
variable {vol : Volume} {total : Nat} (h : vol.Laid total)
include h

theorem not_exFat : vol.type ≠ .exFat := by
  rw [h.type]
  exact typeOfClusters_ne_exFat _

theorem entryAddress_apart {c d j k : Nat} (hc : vol.validCluster c = true)
    (hjk : j < k) (hk : k < vol.numFATs) :
    vol.entryAddress j c + vol.entryWidth ≤ vol.entryAddress k d := by
  have hfits := h.entryOffset_le hc
  rw [h.entryAddress_eq (hjk.trans hk), h.entryAddress_eq hk]
  have hmul : (vol.firstFATSector + (j + 1) * vol.fatSizeSectors) * vol.bytesPerSector ≤
      (vol.firstFATSector + k * vol.fatSizeSectors) * vol.bytesPerSector :=
    Nat.mul_le_mul_right _ (Nat.add_le_add_left (Nat.mul_le_mul_right _ hjk) _)
  rw [Nat.succ_mul, ← add_assoc, add_mul _ vol.fatSizeSectors] at hmul
  omega

theorem entryAddress_ordered {c : Nat} (hc : vol.validCluster c = true) :
    (List.range vol.numFATs).Pairwise fun a b =>
      vol.entryAddress a c + vol.entryWidth ≤ vol.entryAddress b c := by
  apply List.pairwise_lt_range.imp_of_mem
  intro j k _ hk hjk
  exact h.entryAddress_apart hc hjk (List.mem_range.mp hk)

theorem entryAddress_reader {c : Nat} (hc : vol.validCluster c = true) :
    wrap32 (vol.firstFATSector + vol.entryOffset c / vol.bytesPerSector) * vol.bytesPerSector +
      vol.entryOffset c % vol.bytesPerSector = vol.entryAddress 0 c := by
  have hfits := h.entryOffset_le hc
  have hcopy := h.copy_le h.copies
  have hlt := h.copies_lt
  have hwidth := vol.entryWidth_bounds
  have hsector : vol.entryOffset c / vol.bytesPerSector < vol.fatSizeSectors :=
    Nat.div_lt_of_lt_mul (by rw [mul_comm]; omega)
  rw [h.entryAddress_eq h.copies, wrap32_of_lt (by omega), zero_mul, add_zero, add_mul,
    add_assoc, mul_comm (_ / _), Nat.div_add_mod]

end Volume.Laid

namespace Storage
variable {D : Type} {io : Device D} {size : Nat} (storage : Storage io size) {vol : Volume}
  {total : Nat}

theorem getNextCluster_eq (h : vol.Laid total) {c : Nat} (hc : vol.validCluster c = true) (d : D) :
    getNextCluster io vol d c = if vol.entryAddress 0 c + vol.entryWidth ≤ size then
        .ok (vol.entryValue c (wordAt (storage.contents d) (vol.entryAddress 0 c) vol.entryWidth))
      else .error .unexpectedEndOfFile := by
  have hbytes := h.bytes
  have hwidth := vol.entryWidth_bounds
  have hmod := Nat.mod_lt (vol.entryOffset c) (show 0 < vol.bytesPerSector by omega)
  have haddress := h.entryAddress_reader hc
  unfold getNextCluster
  simp only [storage.read, readAt_length]
  rw [← haddress]
  generalize wrap32 (vol.firstFATSector + vol.entryOffset c / vol.bytesPerSector) *
    vol.bytesPerSector = start
  generalize vol.entryOffset c % vol.bytesPerSector = place at hmod
  by_cases hfits : start + place + vol.entryWidth ≤ size
  · rw [if_pos hfits, if_neg (by omega)]
    unfold field wordAt
    rw [readAt_drop_take _ (by omega)]
  · rw [if_neg hfits, if_pos (by omega)]

end Storage

namespace Patched
variable {vol : Volume} {total value : Nat} {m m' : ByteStore}

/-- The addresses of an entry in all copies. -/
abbrev entryPlaces (vol : Volume) (cluster : Nat) : List Nat :=
  (List.range vol.numFATs).map fun copy => vol.entryAddress copy cluster

theorem word_copy {c copy : Nat} (hpatched : Patched vol c value (entryPlaces vol c) m m')
    (hcopy : copy < vol.numFATs) : wordAt m' (vol.entryAddress copy c) vol.entryWidth =
      vol.mergeEntry c (wordAt m (vol.entryAddress copy c) vol.entryWidth) value :=
  hpatched.word _ (List.mem_map.mpr ⟨copy, List.mem_range.mpr hcopy, rfl⟩)

theorem away_of_copy (h : vol.Laid total) {c d copy n : Nat} (hc : vol.validCluster c = true)
    (hd : vol.validCluster d = true) (hcopy : copy < vol.numFATs) (hn : n ≤ vol.entryWidth)
    (hown : vol.entryAddress copy d + n ≤ vol.entryAddress copy c ∨
      vol.entryAddress copy c + vol.entryWidth ≤ vol.entryAddress copy d) : ∀ p ∈ entryPlaces vol c,
      vol.entryAddress copy d + n ≤ p ∨ p + vol.entryWidth ≤ vol.entryAddress copy d := by
  intro p hp
  obtain ⟨other, hother, rfl⟩ := List.mem_map.mp hp
  rcases lt_trichotomy copy other with hlt | rfl | hgt
  · have := h.entryAddress_apart (d := c) hd hlt (List.mem_range.mp hother)
    exact .inl (by omega)
  · exact hown
  · exact .inr (h.entryAddress_apart hc hgt hcopy)

theorem entryOffset_cases (h : vol.Laid total) {c d : Nat} (hc : vol.validCluster c = true)
    (hd : vol.validCluster d = true) (hne : d ≠ c) :
    (vol.entryOffset d + vol.entryWidth ≤ vol.entryOffset c ∨
      vol.entryOffset c + vol.entryWidth ≤ vol.entryOffset d) ∨ vol.type = .fat12 ∧
      (c % 2 = 0 ∧ d = c + 1 ∧ vol.entryOffset d = vol.entryOffset c + 1 ∨
        d % 2 = 0 ∧ c = d + 1 ∧ vol.entryOffset c = vol.entryOffset d + 1) := by
  have hclusters := h.clusters
  have hvalidC := of_decide_eq_true hc
  have hvalidD := of_decide_eq_true hd
  unfold Volume.entryOffset Volume.entryWidth
  cases htype : vol.type with
  | fat12 =>
    dsimp only
    rw [wrap32_of_lt (by omega), wrap32_of_lt (by omega), eq_self, true_and]
    omega
  | fat16 =>
    dsimp only
    rw [wrap32_of_lt (by omega), wrap32_of_lt (by omega)]
    omega
  | fat32 =>
    dsimp only
    rw [wrap32_of_lt (by omega), wrap32_of_lt (by omega)]
    omega
  | exFat => exact absurd htype h.not_exFat

/-- No other entry changes its value. -/
theorem entryValue_neighbour (h : vol.Laid total) {c d copy : Nat}
    (hc : vol.validCluster c = true) (hd : vol.validCluster d = true) (hne : d ≠ c)
    (hcopy : copy < vol.numFATs) (hpatched : Patched vol c value (entryPlaces vol c) m m') :
    vol.entryValue d (wordAt m' (vol.entryAddress copy d) vol.entryWidth) =
      vol.entryValue d (wordAt m (vol.entryAddress copy d) vol.entryWidth) := by
  have hplaceC := h.entryAddress_eq hcopy c
  have hplaceD := h.entryAddress_eq hcopy d
  rcases entryOffset_cases h hc hd hne with happart | ⟨htype, hshared⟩
  · rw [hpatched.wordAt_eq (away_of_copy h hc hd hcopy le_rfl (by omega))]
  have hwidth : vol.entryWidth = 2 := by
    unfold Volume.entryWidth
    rw [htype]
  have hword := hpatched.word_copy hcopy
  have hlt := wordAt_lt m (vol.entryAddress copy c) vol.entryWidth
  -- The byte of the other entry that is not shared stays as it was.
  have hbyte : ∀ i, vol.entryAddress copy d ≤ i → i < vol.entryAddress copy d + 2 →
      (i < vol.entryAddress copy c ∨ vol.entryAddress copy c + 2 ≤ i) → m' i = m i := by
    intro i hle hlt hout
    refine hpatched.frame i fun p hp => ?_
    obtain ⟨other, hother, rfl⟩ := List.mem_map.mp hp
    rcases lt_trichotomy copy other with hbelow | rfl | habove
    · have := h.entryAddress_apart (d := c) hd hbelow (List.mem_range.mp hother)
      exact .inl (by omega)
    · rwa [hwidth]
    · have := h.entryAddress_apart (d := d) hc habove hcopy
      exact .inr (by omega)
  unfold Volume.entryValue
  rw [hwidth] at hword hlt ⊢
  simp only [htype]
  rcases hshared with ⟨heven, rfl, hoffset⟩ | ⟨heven, rfl, hoffset⟩
  · have hnext : vol.entryAddress copy (c + 1) = vol.entryAddress copy c + 1 := by omega
    have hlast := hbyte (vol.entryAddress copy c + 2) (by omega) (by omega) (by omega)
    rw [Volume.mergeEntry_fat12_even vol c _ value htype heven hlt, wordAt_two, wordAt_two] at hword
    rw [hnext, wordAt_two, wordAt_two, show vol.entryAddress copy c + 1 + 1 =
      vol.entryAddress copy c + 2 from rfl, hlast, if_pos (by omega), if_pos (by omega)]
    have hfirst := (m (vol.entryAddress copy c)).toNat_lt
    have hfirst' := (m' (vol.entryAddress copy c)).toNat_lt
    omega
  · have hnext : vol.entryAddress copy (d + 1) = vol.entryAddress copy d + 1 := by omega
    have hfirst := hbyte (vol.entryAddress copy d) (by omega) (by omega) (by omega)
    rw [Volume.mergeEntry_fat12_odd vol (d + 1) _ value htype (by omega), hnext, wordAt_two,
      wordAt_two] at hword
    rw [wordAt_two, wordAt_two, hfirst, if_neg (by omega), if_neg (by omega)]
    omega

end Patched

/-! ## Setting an entry -/

theorem getNextCluster_fixedFields {D : Type} (io : Device D) {vol vol' : Volume}
    (h : vol.fixedFields = vol'.fixedFields) (d : D) (c : Nat) :
    getNextCluster io vol d c = getNextCluster io vol' d c := by
  show getNextCluster io vol.fixedFields d c = getNextCluster io vol'.fixedFields d c
  rw [h]

theorem Volume.Laid.freeCount_lt {vol : Volume} {total i : Nat} (h : vol.Laid total)
    (hi : vol.IsFreeCount i) : i < vol.firstFATSector * vol.bytesPerSector := by
  obtain ⟨sector, hsector, -, -, hlt⟩ := hi
  have hbound : sector < vol.reservedSectors := by
    rcases List.mem_cons.mp hsector with rfl | hsector
    · exact h.fsInfo
    · rw [List.mem_singleton.mp hsector]
      exact h.backup
  have hmul : (sector + 1) * vol.bytesPerSector ≤ vol.reservedSectors * vol.bytesPerSector :=
    Nat.mul_le_mul_right _ hbound
  have hbytes := h.bytes
  rw [h.fatStart]
  rw [Nat.succ_mul] at hmul
  omega

/-- What `FAT_SetCluster` on `cluster` does to the bytes of the device, and so to what
`FAT_GetNextCluster` returns. -/
structure EntrySet {D : Type} (io : Device D) (contents : D → ByteStore) (cluster value : Nat)
    (s s' : Mount D) : Prop where
  reads : getNextCluster io s'.vol s'.device cluster = .ok (s.vol.maskValue value)
  others : ∀ other, s.vol.validCluster other = true → other ≠ cluster →
    getNextCluster io s'.vol s'.device other = getNextCluster io s.vol s.device other
  copies : ∀ copy < s.vol.numFATs, s.vol.entryValue cluster
    (wordAt (contents s'.device) (s.vol.entryAddress copy cluster) s.vol.entryWidth) =
      s.vol.maskValue value
  /-- Copies with the same bytes there before have the same bytes there now. -/
  agree : ∀ j < s.vol.numFATs, ∀ k < s.vol.numFATs,
    wordAt (contents s.device) (s.vol.entryAddress j cluster) s.vol.entryWidth =
      wordAt (contents s.device) (s.vol.entryAddress k cluster) s.vol.entryWidth →
    wordAt (contents s'.device) (s.vol.entryAddress j cluster) s.vol.entryWidth =
      wordAt (contents s'.device) (s.vol.entryAddress k cluster) s.vol.entryWidth
  topBits : s.vol.type = .fat32 → ∀ copy < s.vol.numFATs,
    wordAt (contents s'.device) (s.vol.entryAddress copy cluster) 4 / 2 ^ 28 =
      wordAt (contents s.device) (s.vol.entryAddress copy cluster) 4 / 2 ^ 28
  frame : ∀ i, ¬s.vol.IsFreeCount i →
    (∀ area ∈ s.vol.fatCopies, i < area.1 * s.vol.bytesPerSector ∨
      area.2 * s.vol.bytesPerSector ≤ i) →
    contents s'.device i = contents s.device i

section Setting
variable {D : Type} {io : Device D} {size : Nat} (storage : Storage io size)

/-- All copies of the table change, in the entry of the cluster alone. -/
theorem setCluster_patched {total cluster value : Nat} {s s' : Mount D} (h : s.vol.Laid total)
    (hset : Mount.setCluster io cluster value s = (.ok (), s')) :
    s.vol.validCluster cluster = true ∧
      (∀ copy < s.vol.numFATs, s.vol.entryAddress copy cluster + s.vol.entryWidth ≤ size) ∧
      s'.vol.fixedFields = s.vol.fixedFields ∧
      ∃ m, (∀ i, ¬s.vol.IsFreeCount i → m i = storage.contents s.device i) ∧
        Patched s.vol cluster value (Patched.entryPlaces s.vol cluster) m
          (storage.contents s'.device) := by
  unfold Mount.setCluster at hset
  rw [Prog.get_bind_apply] at hset
  by_cases hbad : (!s.vol.validCluster cluster || s.vol.type == .exFat) = true
  · rw [if_pos hbad] at hset
    cases hset
  rw [if_neg hbad] at hset
  have hvalid : s.vol.validCluster cluster = true := by
    by_contra hno
    rw [Bool.not_eq_true] at hno
    exact hbad (by rw [hno]; rfl)
  have hloop : Prog.Triple (storage.Shows s.vol (storage.contents s.device))
      (Mount.invalidateFsInfo io s.vol >>= fun _ =>
        Mount.setCopies io s.vol cluster value (List.range s.vol.numFATs))
      (fun _ t => (∀ copy ∈ List.range s.vol.numFATs,
          s.vol.entryAddress copy cluster + s.vol.entryWidth ≤ size) ∧
        ∃ m m', (∀ i, ¬s.vol.IsFreeCount i → m i = storage.contents s.device i) ∧
          storage.Shows s.vol m' t ∧
          Patched s.vol cluster value (Patched.entryPlaces s.vol cluster) m m')
      Storage.anyError := by
    refine .bind storage.invalidateFsInfo_triple fun _ => ?_
    rintro t ⟨m, ht, hsame⟩
    refine (storage.setCopies_triple h.not_exFat (h.entryAddress_ordered hvalid) m).weaken
      (fun _ => id) ?_ (fun _ _ => id) t ht
    rintro _ t' ⟨hfits, m', ht', hpatched⟩
    exact ⟨hfits, m, m', hsame, ht', hpatched⟩
  obtain ⟨hfits, m, m', hsame, hs', hpatched⟩ := hloop.of_ok ⟨rfl, rfl⟩ hset
  refine ⟨hvalid, fun copy hcopy => hfits copy (List.mem_range.mpr hcopy), hs'.1, m, hsame, ?_⟩
  rw [hs'.2]
  exact hpatched

/-- For every volume that `FAT_ParseVbr` accepts, whatever its device holds. -/
theorem setCluster_spec {sector : List UInt8} {parsed : Volume} {serial : Option Nat}
    (hparse : parseVbr sector = .ok (parsed, serial)) (htype : parsed.type ≠ .exFat)
    {s s' : Mount D} (hvol : s.vol.fixedFields = parsed.fixedFields) {cluster value : Nat}
    (hset : Mount.setCluster io cluster value s = (.ok (), s')) :
    EntrySet io storage.contents cluster value s s' := by
  have h := (parseVbr_laid hparse htype).of_fixedFields hvol
  obtain ⟨hvalid, hfits, hfixed, m, hsame, hpatched⟩ := setCluster_patched storage h hset
  have hreader := getNextCluster_fixedFields io hfixed s'.device
  -- The FSInfo sectors end before the first copy.
  have hbefore : ∀ other, ∀ copy < s.vol.numFATs,
      wordAt m (s.vol.entryAddress copy other) s.vol.entryWidth =
        wordAt (storage.contents s.device) (s.vol.entryAddress copy other) s.vol.entryWidth := by
    intro other copy hcopy
    unfold wordAt
    rw [readAt_congr fun i _ => hsame _ fun hfree => ?_]
    have hlt := h.freeCount_lt hfree
    rw [h.entryAddress_eq hcopy, add_mul] at hlt
    omega
  have hword : ∀ copy < s.vol.numFATs,
      wordAt (storage.contents s'.device) (s.vol.entryAddress copy cluster) s.vol.entryWidth =
        s.vol.mergeEntry cluster (wordAt (storage.contents s.device)
          (s.vol.entryAddress copy cluster) s.vol.entryWidth) value := by
    intro copy hcopy
    rw [hpatched.word_copy hcopy, hbefore cluster copy hcopy]
  have hvalue : ∀ copy < s.vol.numFATs, s.vol.entryValue cluster
      (wordAt (storage.contents s'.device) (s.vol.entryAddress copy cluster) s.vol.entryWidth) =
        s.vol.maskValue value := by
    intro copy hcopy
    rw [hword copy hcopy, Volume.entryValue_mergeEntry h.not_exFat (wordAt_lt ..)]
  refine ⟨?_, ?_, hvalue, ?_, ?_, ?_⟩
  · rw [hreader, storage.getNextCluster_eq h hvalid, if_pos (hfits 0 h.copies), hvalue 0 h.copies]
  · intro other hother hne
    rw [hreader, storage.getNextCluster_eq h hother, storage.getNextCluster_eq h hother,
      Patched.entryValue_neighbour h hvalid hother hne h.copies hpatched,
      hbefore other 0 h.copies]
  · intro j hj k hk hagree
    rw [hword j hj, hword k hk, hagree]
  · intro hfat32 copy hcopy
    have hwidth : s.vol.entryWidth = 4 := by
      unfold Volume.entryWidth
      rw [hfat32]
    have hcopyWord := hword copy hcopy
    have hlt := wordAt_lt (storage.contents s.device) (s.vol.entryAddress copy cluster) 4
    rw [hwidth, Volume.mergeEntry_fat32 _ _ _ _ hfat32 hlt] at hcopyWord
    omega
  · intro i hfree haway
    rw [hpatched.frame i ?_, hsame i hfree]
    intro p hp
    obtain ⟨copy, hcopy, rfl⟩ := List.mem_map.mp hp
    have hin := haway _ (List.mem_map.mpr ⟨copy, hcopy, rfl⟩)
    have hoffset := h.entryOffset_le hvalid
    rw [h.entryAddress_eq (List.mem_range.mp hcopy)]
    dsimp only at hin
    rw [Nat.succ_mul, ← add_assoc, add_mul _ s.vol.fatSizeSectors] at hin
    omega

end Setting

/-- A device of `size` bytes that never fails. -/
def clippedDevice (size : Nat) : Device ByteStore where
  read := fun d offset length => .ok (readAt d offset (min length (size - offset)))
  write := fun d offset data =>
    (.ok (min data.length (size - offset)), writeAt d offset (data.take (size - offset)))
  read_length := by
    intro d offset length data h
    rw [← Except.ok.inj h, readAt_length]
    exact Nat.min_le_left ..

def clippedStorage (size : Nat) : Storage (clippedDevice size) size where
  contents := id
  read := fun _ _ _ => rfl
  write := by
    intro d offset data d' h
    obtain ⟨htransferred, rfl⟩ := Prod.mk.inj h
    have hall := Except.ok.inj htransferred
    dsimp only [id]
    rw [List.take_of_length_le (by omega)]

/-- The volume of 32 KiB, mounted. -/
def smallMount : Mount ByteStore := ⟨smallVolume, smallDisk⟩

theorem setCluster_spec_small : ∃ s', EntrySet (clippedDevice 32768) id 2 0xFFF smallMount s' := by
  have hok : (Mount.setCluster (clippedDevice 32768) 2 0xFFF smallMount).1 = .ok () := by
    decide +kernel
  exact ⟨_, setCluster_spec (clippedStorage 32768) smallBootSector_parse (by decide)
    (s := smallMount) rfl (Prod.ext hok rfl)⟩

end UnDOS.Fat

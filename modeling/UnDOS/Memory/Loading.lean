import UnDOS.Memory.Buffers

/-!
# Loading an Image into a Process

`LoadElfFromVfs` for a user image, with the buffers it reads the segments into: whatever
it returns, the frames it has taken are behind pages of the process, or back in the pool.
The image itself is mapped without a region.
-/

namespace UnDOS.Memory

open UnDOS.Lib
open UnDOS.Kernel (KernelError)

/-- The policy of `KE_USER_CreateProcess`. -/
def processPolicy (pid : Nat) : LoadPolicy := { userMode := true, targetAs := some (.user pid) }

/-- `LoadElfFromVfs` with that policy: no relocations, and no region of the kernel to give
back after a failure. -/
def loadProcessImage (pid : Nat) (file : VfsFile) : Vmm Unit := do
  let image ← mapImage file (processPolicy pid) (.ok ())
  freeBlocks (image.segments.map LoadedSegment.block)
  match image.status with
  | none => pure ()
  | some e => Prog.throw e

theorem memcpyTo_run {virt : Nat} {data : List UInt8} {m m' : Machine}
    {o : Outcome KernelError Unit} (h : memcpyTo virt data m = (o, m')) (ho : o ≠ .stuck) :
    o = .ok () ∧ ∃ s, m' = { m with stores := s } := by
  induction data generalizing virt m with
  | nil =>
    obtain ⟨rfl, rfl⟩ := Prod.mk.inj h
    exact ⟨rfl, m.stores, rfl⟩
  | cons b rest ih =>
    unfold memcpyTo at h
    rw [Prog.get_bind_apply] at h
    rcases hw : m.walk m.current (pageOf virt) with _ | e
    · rw [hw] at h
      exact absurd (Prod.mk.inj h).1.symm ho
    · rw [hw] at h
      obtain ⟨hok, s, rfl⟩ := ih h
      exact ⟨hok, s, rfl⟩

theorem onlyKernelGrows_readBlob (file : VfsFile) (offset size : Nat) :
    Prog.Within OnlyKernelGrows (readBlob file offset size) := by
  have hE := onlyKernelGrows_isEffect
  apply Prog.Within.ite (fun _ => Prog.Within.pure hE _)
  intro _
  apply Prog.Within.bind hE (onlyKernelGrows.malloc size)
  intro block
  cases block with
  | none => exact Prog.Within.throw hE _
  | some block =>
    dsimp only
    split
    · apply Prog.Within.bind hE (onlyKernelGrows.free block)
      intro _
      exact Prog.Within.throw hE _
    · exact Prog.Within.pure hE _

theorem onlyKernelGrows_readSegments (file : VfsFile) (phdrs : List ProgramHeader) :
    Prog.Within OnlyKernelGrows (readSegments file phdrs) := by
  have hE := onlyKernelGrows_isEffect
  induction phdrs with
  | nil => exact Prog.Within.pure hE _
  | cons ph rest ih =>
    apply Prog.Within.ite
    · intro _
      apply Prog.Within.bind hE ih
      intro _
      exact Prog.Within.pure hE _
    · intro _
      apply Prog.Within.bind hE
        (Prog.Within.attempt (onlyKernelGrows_readBlob file ph.offset ph.filesz))
      intro blob
      rcases blob with e | ⟨data, block⟩
      · exact Prog.Within.pure hE _
      · apply Prog.Within.bind hE ih
        intro _
        exact Prog.Within.pure hE _

namespace Book

variable {old hand : Set Nat} {root pid : Nat} {m m' : Machine}

/-! ## Reading -/

theorem readBlob {file : VfsFile} {offset size : Nat}
    {o : Outcome KernelError (List UInt8 × Option Block)} (h : Book old root pid hand m)
    (hrun : Memory.readBlob file offset size m = (o, m')) (ho : o ≠ .stuck) :
    Extends m m' ∧ ((∃ e, o = .err e ∧ Book old root pid hand m') ∨
      ∃ data block F, o = .ok (data, block) ∧ Book old root pid (hand ∪ F) m' ∧
        (∀ a ∈ F, a ∉ hand) ∧ BlockOver root m' block F) := by
  unfold Memory.readBlob at hrun
  split at hrun
  · cases hrun
    exact ⟨extends_isEffect.refl m, .inr ⟨_, none, ∅, rfl, by rwa [Set.union_empty],
      fun a ha => ha.elim, rfl⟩⟩
  rcases Prog.bind_run hrun ho with ⟨block, m₁, hmalloc, hrun⟩ | ⟨e, hmalloc, -⟩
  · obtain ⟨block', F, hok, hext, h₁, hnew, hblock⟩ := h.malloc hmalloc (by simp)
    obtain rfl := Outcome.ok.inj hok
    cases block with
    | none =>
      cases hrun
      rw [hblock, Set.union_empty] at h₁
      exact ⟨hext, .inl ⟨_, rfl, h₁⟩⟩
    | some block =>
      rcases hread : readExact file offset size with e | bytes
      · rw [hread] at hrun
        obtain ⟨m₂, hfree, h₂, hlast⟩ :=
          Prog.bind_done hrun ho fun _ _ => h₁.freeBlock hblock (fun a ha => .inr ha)
        rw [union_sdiff_run hnew] at h₂
        cases hlast
        refine ⟨?_, .inl ⟨_, rfl, h₂⟩⟩
        -- A page that was mapped at the start is not one of the block's.
        intro r p e hpd hw
        rw [free_ok hfree r p hpd, hext r p e hpd hw]
        intro hp
        rw [(malloc_ok h.high hmalloc (by simp)).2 block rfl p r hp hpd] at hw
        cases hw
      · rw [hread] at hrun
        cases hrun
        exact ⟨hext, .inr ⟨bytes, some block, F, rfl, h₁, hnew, hblock⟩⟩
  · obtain ⟨_, _, herr, -⟩ := h.malloc hmalloc (by simp)
    cases herr

theorem readSegments {file : VfsFile} {phdrs : List ProgramHeader}
    {o : Outcome KernelError (List LoadedSegment × Option KernelError)}
    (h : Book old root pid hand m) (hrun : Memory.readSegments file phdrs m = (o, m'))
    (ho : o ≠ .stuck) : ∃ segs status G, o = .ok (segs, status) ∧ Extends m m' ∧
      Book old root pid (hand ∪ G) m' ∧ (∀ a ∈ G, a ∉ hand) ∧
      Held root m' (segs.map LoadedSegment.block) G := by
  induction phdrs generalizing hand m o m' with
  | nil =>
    cases hrun
    exact ⟨[], none, ∅, rfl, extends_isEffect.refl m, by rwa [Set.union_empty],
      fun a ha => ha.elim, Held.nil⟩
  | cons ph rest ih =>
    unfold Memory.readSegments at hrun
    split at hrun
    · rcases Prog.bind_run hrun ho with ⟨⟨segs, status⟩, m₁, hrest, hrun⟩ | ⟨e, hrest, -⟩
      · obtain ⟨segs', status', G, hok, hext, hbook, hnew, hheld⟩ := ih h hrest (by simp)
        obtain ⟨rfl, rfl⟩ := Prod.mk.inj (Outcome.ok.inj hok)
        cases hrun
        refine ⟨_, status, G, rfl, hext, hbook, hnew, ?_⟩
        rw [← Set.empty_union G]
        exact Held.cons rfl hheld fun a ha => ha.elim
      · obtain ⟨_, _, _, herr, -⟩ := ih h hrest (by simp)
        cases herr
    · rcases Prog.attempt_run hrun ho with ⟨⟨data, block⟩, m₁, hblob, hrun⟩ | ⟨e, m₁, hblob, hrun⟩
      · obtain ⟨hext₁, hcases⟩ := h.readBlob hblob (by simp)
        rcases hcases with ⟨_, herr, -⟩ | ⟨data', block', F, hok, h₁, hnew₁, hblock⟩
        · cases herr
        obtain ⟨rfl, rfl⟩ := Prod.mk.inj (Outcome.ok.inj hok)
        rcases Prog.bind_run hrun ho with ⟨⟨segs, status⟩, m₂, hrest, hrun⟩ | ⟨e, hrest, -⟩
        · obtain ⟨segs', status', G, hok, hext, hbook, hnew, hheld⟩ := ih h₁ hrest (by simp)
          obtain ⟨rfl, rfl⟩ := Prod.mk.inj (Outcome.ok.inj hok)
          cases hrun
          have hgrow := (onlyKernelGrows_readSegments file rest).of_eq hrest (by simp)
          refine ⟨_, status, F ∪ G, rfl, extends_isEffect.trans hext₁ hext, ?_, ?_, ?_⟩
          · rwa [← Set.union_assoc]
          · rintro a (ha | ha) hin
            · exact hnew₁ a ha hin
            · exact hnew a ha (.inl hin)
          · exact Held.cons (hblock.extends hext hgrow.base) hheld
              fun a ha hin => hnew a hin (.inr ha)
        · obtain ⟨_, _, _, herr, -⟩ := ih h₁ hrest (by simp)
          cases herr
      · obtain ⟨hext₁, hcases⟩ := h.readBlob hblob (by simp)
        rcases hcases with ⟨_, -, h₁⟩ | ⟨_, _, _, hok, -⟩
        · cases hrun
          exact ⟨[], some e, ∅, rfl, hext₁, by rwa [Set.union_empty], fun a ha => ha.elim,
            Held.nil⟩
        · cases hok

/-! ## Mapping -/

variable {o : Outcome KernelError Unit}

theorem mapSegmentPage {start i : Nat} {flags : ProtectFlags}
    (h : Book old root pid hand m) (hcur : m.current = root)
    (hlow : pdIndex (pageOf (start + i * pageSize)) < kernelSplit)
    (hrun : Memory.mapSegmentPage start flags i m = (o, m')) (ho : o ≠ .stuck) :
    Book old root pid hand m' ∧ m'.current = root ∧ Extends m m' ∧ SameSpaces m m' ∧
      (o = .ok () → m.walk root (pageOf (start + i * pageSize)) = none ∧
        ∃ a, m'.holder root (.page (pageOf (start + i * pageSize))) = some a) := by
  obtain ⟨phys, m₁, hpmm, hrest⟩ := (pmmAllocateFrames_neverFails _).bind_run hrun ho
  obtain ⟨hmaps₁, -⟩ := pmmAllocateFrames_ok hpmm
  rcases h.allocate hpmm with ⟨rfl, rfl⟩ | ⟨hphys, h₁, hnew⟩
  · cases hrest
    exact ⟨h, hcur, extends_isEffect.refl _, sameSpaces_isEffect.refl _, by simp⟩
  rw [if_neg hphys] at hrest
  have hsame₁ := (sameSpaces_shape.pmmAllocateFrames 1).of_eq hpmm (by simp)
  have hcur₁ : m₁.current = root := hmaps₁.current.trans hcur
  obtain ⟨ok, m₂, hmap, hlast⟩ := (vmmMapPage_neverFails _ _ _).bind_run hrest ho
  have h₂ := h₁.mapPage hcur₁ hlow (.inr ⟨0, by decide, by omega⟩) hmap
  obtain ⟨hmaps₂, hpd, hdone⟩ := vmmMapPage_ok hmap
  have hext := extends_isEffect.trans hmaps₁.walks hmaps₂.walks
  have hcur₂ : m₂.current = root := hmaps₂.current.trans hcur₁
  have hsame₂ := sameSpaces_isEffect.trans hsame₁
    ((sameSpaces_shape.vmmMapPage _ _ _).of_eq hmap (by simp))
  cases ok with
  | true =>
    rw [← frameRun_one, union_sdiff_run hnew] at h₂
    obtain ⟨hfree, hself⟩ := hdone rfl
    rw [hcur₁] at hfree hself
    rcases o with _ | e | _
    · have h₃ := h₂.memsetPage hlast
      obtain ⟨_, -, rfl⟩ := memsetPage_ok hlast
      refine ⟨h₃, hcur₂, hext, ⟨hsame₂.kernel, hsame₂.spaces⟩,
        fun _ => ⟨?_, (Pte.setFrame phys flags).frame, ?_⟩⟩
      · rcases hw : m.walk root (pageOf (start + i * pageSize)) with _ | e
        · rfl
        · rw [hmaps₁.walks root _ e hpd hw] at hfree
          cases hfree
      · rw [← walk_eq_holder hpd]
        exact congrArg (Option.map Pte.frame) hself
    · exact absurd hlast (memsetPage_neverFails _ _ _ _)
    · exact absurd rfl ho
  | false =>
    simp only [Bool.false_eq_true, if_false] at hlast h₂
    obtain ⟨_, m₃, hfree, hend⟩ := (pmmFreeFrames_neverFails _ _).bind_run hlast ho
    have h₃ := h₂.free (fun a ha => .inr ha) hfree
    rw [union_sdiff_run hnew] at h₃
    cases hfree
    cases hend
    exact ⟨h₃, hcur₂, hext, ⟨hsame₂.kernel, hsame₂.spaces⟩, by simp⟩

theorem rollbackPage_eq {page a : Nat} (h : Book old root pid hand m) (hcur : m.current = root)
    (hlow : pdIndex (pageOf page) < kernelSplit) (haligned : page % pageSize = 0)
    (ha : m.holder root (.page (pageOf page)) = some a) :
    Memory.rollbackPage page m = Memory.unmapAndFree page m := by
  obtain ⟨phys, hread⟩ := vmmGetPhysicalAddress_ok page m
  obtain ⟨rfl, -⟩ := physical hcur hlow haligned ha hread
  unfold Memory.rollbackPage Memory.unmapAndFree
  rw [Prog.bind_ok hread, Prog.bind_ok hread]
  simp only [if_pos (h.holder_ne_zero hlow ha)]

/-- What the loop of `MapAndCopySegment` has done after `n` pages. -/
structure SegmentPages (old hand : Set Nat) (root pid start : Nat) (base : Machine) (lo hi : Nat)
    (m : Machine) : Prop where
  book : Book old root pid hand m
  stays : Stays base root m
  pages : ∀ k, lo ≤ k → k < hi → base.walk root (pageOf (start + k * pageSize)) = none ∧
    ∃ a, m.holder root (.page (pageOf (start + k * pageSize))) = some a

theorem mapSegmentPages {start count : Nat} {flags : ProtectFlags}
    {o : Outcome KernelError (Nat × Option KernelError)} (h : Book old root pid hand m)
    (hcur : m.current = root)
    (hlow : ∀ i < count, pdIndex (pageOf (start + i * pageSize)) < kernelSplit)
    (hrun : Prog.countTry count (Memory.mapSegmentPage start flags) m = (o, m')) (ho : o ≠ .stuck) :
    ∃ n f, o = .ok (n, f) ∧ n ≤ count ∧ SegmentPages old hand root pid start m 0 n m' := by
  obtain ⟨n, f, hf, hpages, hle, -⟩ := Prog.countTry_run
    (I := SegmentPages old hand root pid start m 0)
    ⟨h, hcur ▸ Stays.refl m, fun k _ hk => absurd hk (Nat.not_lt_zero k)⟩ (by
      intro i hi t ob t' ht hbody hob
      obtain ⟨hbook, hcur', hext, hsame, hdone⟩ :=
        ht.book.mapSegmentPage ht.stays.current (hlow i hi) hbody hob
      have hstays : Stays m root t' := ⟨extends_isEffect.trans ht.stays.pages hext,
        sameSpaces_isEffect.trans ht.stays.regions hsame, hcur'⟩
      have hkept : ∀ k, 0 ≤ k → k < i → m.walk root (pageOf (start + k * pageSize)) = none ∧
          ∃ a, t'.holder root (.page (pageOf (start + k * pageSize))) = some a := by
        intro k hlo hk
        obtain ⟨hnone, a, ha⟩ := ht.pages k hlo hk
        exact ⟨hnone, a, hext.holder (low_lt_temp (hlow k (lt_trans hk hi))) ha⟩
      refine ⟨fun hok => ⟨hbook, hstays, ?_⟩, fun _ _ => ⟨hbook, hstays, hkept⟩⟩
      intro k hlo hk
      rcases Nat.lt_succ_iff_lt_or_eq.1 hk with hk | rfl
      · exact hkept k hlo hk
      · obtain ⟨hnone, ha⟩ := hdone hok
        refine ⟨?_, ha⟩
        rcases hw : m.walk root (pageOf (start + k * pageSize)) with _ | e
        · rfl
        · rw [ht.stays.pages root _ e (low_lt_temp (hlow k hi)) hw] at hnone
          cases hnone) hrun ho
  exact ⟨n, f, hf, hle, hpages⟩

theorem rollbackPages {base : Machine} {start n : Nat}
    (h : SegmentPages old hand root pid start base 0 n m) (haligned : start % pageSize = 0)
    (hlow : ∀ i < n, pdIndex (pageOf (start + i * pageSize)) < kernelSplit)
    (hrun : Prog.forRange n (fun i => Memory.rollbackPage (start + i * pageSize)) m = (o, m'))
    (ho : o ≠ .stuck) : o = .ok () ∧ Book old root pid hand m' ∧ Stays base root m' := by
  obtain ⟨rfl, hend⟩ := Prog.forRange_run
    (I := fun j t => SegmentPages old hand root pid start base j n t) h (by
      intro j hj t ob t' ht hbody hob
      obtain ⟨hnone, a, ha⟩ := ht.pages j (le_refl j) hj
      have hpage : (start + j * pageSize) % pageSize = 0 := by
        rw [Nat.add_mul_mod_self_right]
        exact haligned
      rw [ht.book.rollbackPage_eq ht.stays.current (hlow j hj) hpage ha] at hbody
      obtain ⟨rfl, hstays⟩ := ht.stays.unmapAndFree hnone hbody hob
      obtain ⟨-, hbook, -, hother⟩ :=
        ht.book.unmapAndFree ht.stays.current (hlow j hj) hpage ha hbody hob
      refine ⟨rfl, hbook, hstays, ?_⟩
      intro k hk hkn
      rw [hother _ ?_ (low_lt_temp (hlow k hkn))]
      · exact ht.pages k (Nat.le_of_succ_le hk) hkn
      · rw [pageOf_add_mul, pageOf_add_mul]
        omega) hrun ho
  exact ⟨rfl, hend.book, hend.stays⟩

theorem mapAndCopySegment {virt fileSize memSize : Nat} {data : Option (List UInt8)}
    {flags : ProtectFlags} (h : Book old root pid hand m) (hcur : m.current = root)
    (hfits : segmentStart virt < segmentEnd virt memSize →
      segmentEnd virt memSize ≤ kernelSplit * 1024 * pageSize)
    (hrun : Memory.mapAndCopySegment virt data fileSize memSize flags m = (o, m'))
    (ho : o ≠ .stuck) : Book old root pid hand m' ∧ Stays m root m' := by
  unfold Memory.mapAndCopySegment at hrun
  have hrefl : Stays m root m := hcur ▸ Stays.refl m
  split at hrun
  · cases hrun
    exact ⟨h, hrefl⟩
  split at hrun
  · obtain ⟨rfl, rfl⟩ := Prod.mk.inj hrun
    exact ⟨h, hrefl⟩
  have haligned : segmentStart virt % pageSize = 0 := Nat.mul_mod_left _ _
  have hlow : ∀ i < (segmentEnd virt memSize - segmentStart virt) / pageSize,
      pdIndex (pageOf (segmentStart virt + i * pageSize)) < kernelSplit := by
    unfold pdIndex pageOf
    unfold pageSize at *
    omega
  obtain ⟨n, f, m₁, hloop, ⟨hle, hpages⟩, hrest⟩ :=
    Prog.bind_returns_pair hrun ho fun _ _ => h.mapSegmentPages hcur hlow
  cases f with
  | some e =>
    have hlow' : ∀ i < n, pdIndex (pageOf (segmentStart virt + i * pageSize)) < kernelSplit :=
      fun i hi => hlow i (by omega)
    obtain ⟨m₂, hundo, ⟨hbook, hstays⟩, hlast⟩ :=
      Prog.bind_done hrest ho fun _ _ => rollbackPages hpages haligned hlow'
    cases hlast
    exact ⟨hbook, hstays⟩
  | none =>
    obtain ⟨-, s, rfl⟩ := memcpyTo_run hrest ho
    exact ⟨hpages.book.congr rfl rfl rfl rfl, hpages.stays.pages,
      ⟨hpages.stays.regions.kernel, hpages.stays.regions.spaces⟩, hpages.stays.current⟩

theorem mapSegments {policy : LoadPolicy} {delta : Nat} {segs : List LoadedSegment}
    {o : Outcome KernelError (Option KernelError)} (h : Book old root pid hand m)
    (hcur : m.current = root) (hfits : ∀ seg ∈ segs, seg.header.isLoad = true →
      segmentStart (segmentVirt delta seg.header) <
        segmentEnd (segmentVirt delta seg.header) seg.header.memsz →
      segmentEnd (segmentVirt delta seg.header) seg.header.memsz ≤ kernelSplit * 1024 * pageSize)
    (hrun : Memory.mapSegments policy delta segs m = (o, m')) (ho : o ≠ .stuck) :
    (∃ status, o = .ok status) ∧ Book old root pid hand m' ∧ Stays m root m' := by
  induction segs generalizing m with
  | nil =>
    obtain ⟨rfl, rfl⟩ := Prod.mk.inj hrun
    exact ⟨⟨none, rfl⟩, h, hcur ▸ Stays.refl m⟩
  | cons seg rest ih =>
    have hrest : ∀ seg ∈ rest, _ := fun seg hseg => hfits seg (.tail _ hseg)
    unfold Memory.mapSegments at hrun
    split at hrun
    · exact ih h hcur hrest hrun
    · rename_i hload
      have hseg := hfits seg (.head _) (by simpa using hload)
      rcases Prog.attempt_run hrun ho with ⟨_, m₁, hmap, hrun⟩ | ⟨e, m₁, hmap, hrun⟩
      · obtain ⟨h₁, hstays₁⟩ := h.mapAndCopySegment hcur hseg hmap (by simp)
        obtain ⟨hstatus, hbook, hstays⟩ := ih h₁ hstays₁.current hrest hrun
        exact ⟨hstatus, hbook, extends_isEffect.trans hstays₁.pages hstays.pages,
          sameSpaces_isEffect.trans hstays₁.regions hstays.regions, hstays.current⟩
      · obtain ⟨h₁, hstays₁⟩ := h.mapAndCopySegment hcur hseg hmap (by simp)
        cases hrun
        exact ⟨⟨some e, rfl⟩, h₁, hstays₁⟩

/-- There are no sections to capture, and the image goes where its headers say. -/
theorem mapImage_eq {file : VfsFile} {header : ElfHeader} {phdrs : List ProgramHeader}
    (hread : readHeaders file = .ok (header, phdrs)) :
    Memory.mapImage file (processPolicy pid) (.ok ()) m =
        ((Memory.readSegments file phdrs) >>= fun x =>
      match x.2 with
      | some e => Pure.pure (⟨{}, x.1, some e⟩ : MappedImage)
      | none => do
        let m ← Prog.get
        let status ← withSpace true (m.space (.user pid)).translationRoot
          (Memory.mapSegments (processPolicy pid) 0 x.1)
        Pure.pure (⟨{}, x.1, status⟩ : MappedImage)) m := by
  unfold Memory.mapImage
  rw [hread]
  rfl

/-- The mapping phase: the image is in the address space, and its buffers are in hand. -/
theorem mapImage {file : VfsFile} {o : Outcome KernelError MappedImage}
    (h : Book old root pid hand m) (hfits : FitsBelowLimit file (processPolicy pid) m)
    (hrun : Memory.mapImage file (processPolicy pid) (.ok ()) m = (o, m')) (ho : o ≠ .stuck) :
    (∃ e, o = .err e ∧ Book old root pid hand m') ∨
      ∃ image G, o = .ok image ∧ Book old root pid (hand ∪ G) m' ∧ (∀ a ∈ G, a ∉ hand) ∧
        Held root m' (image.segments.map LoadedSegment.block) G := by
  have hheaders := hfits pid rfl
  unfold programHeaders at hheaders
  rcases hread : readHeaders file with e | ⟨header, phdrs⟩
  · rw [Memory.mapImage, hread] at hrun
    cases hrun
    exact .inl ⟨e, rfl, h⟩
  rw [hread] at hheaders
  replace hheaders : ∀ ph ∈ phdrs, ph.isLoad = true →
      segmentStart (segmentVirt 0 ph) < segmentEnd (segmentVirt 0 ph) ph.memsz →
      segmentEnd (segmentVirt 0 ph) ph.memsz ≤ kernelSplit * 1024 * pageSize := by
    intro ph hph hload hlt
    rw [← h.space.limit]
    exact hheaders ph hph hload hlt
  rw [mapImage_eq hread] at hrun
  rcases Prog.bind_run hrun ho with ⟨⟨segs, readStatus⟩, m₁, hsegs, hrest⟩ | ⟨e, hsegs, -⟩
  · obtain ⟨segs', status', G, hok, -, h₁, hnew, hheld⟩ := h.readSegments hsegs (by simp)
    obtain ⟨rfl, rfl⟩ := Prod.mk.inj (Outcome.ok.inj hok)
    cases readStatus with
    | some e =>
      cases hrest
      exact .inr ⟨_, G, rfl, h₁, hnew, hheld⟩
    | none =>
      dsimp only at hrest
      rw [Prog.get_bind_apply] at hrest
      obtain ⟨hmap, -⟩ := readSegments_ok h.high hsegs
      have hlow : ∀ seg ∈ segs, seg.header.isLoad = true →
          segmentStart (segmentVirt 0 seg.header) <
            segmentEnd (segmentVirt 0 seg.header) seg.header.memsz →
          segmentEnd (segmentVirt 0 seg.header) seg.header.memsz ≤
            kernelSplit * 1024 * pageSize := by
        intro seg hseg
        apply hheaders
        rw [← hmap]
        exact List.mem_map_of_mem hseg
      have hroot : (m₁.space (.user pid)).translationRoot = root := h₁.space.root
      rw [hroot] at hrest
      rcases Prog.bind_run hrest ho with ⟨status, m₂, hspace, hend⟩ | ⟨e, hspace, -⟩
      · obtain ⟨ob, m₃, hbody, hob, hback⟩ := withSpace_cases hspace (by simp)
        obtain ⟨⟨_, rfl⟩, h₃, hstays⟩ := (h₁.current root).mapSegments rfl hlow hbody hob
        cases hend
        rcases hback with ⟨_, c, -, -, rfl⟩ | ⟨_, herr, -⟩
        · have hpages : Extends m₁ { m₃ with current := c } := hstays.pages
          refine .inr ⟨_, G, rfl, h₃.current c, hnew, hheld.extends hpages ?_⟩
          exact le_of_eq (congrArg AddressSpace.currentBase hstays.regions.kernel.symm)
        · cases herr
      · obtain ⟨ob, m₃, hbody, hob, hback⟩ := withSpace_cases hspace (by simp)
        obtain ⟨⟨_, rfl⟩, -⟩ := (h₁.current root).mapSegments rfl hlow hbody hob
        rcases hback with ⟨_, _, _, herr, -⟩ | ⟨_, herr, -⟩
        · cases herr
        · cases herr
  · obtain ⟨_, _, _, herr, -⟩ := h.readSegments hsegs (by simp)
    cases herr

theorem loadProcessImage {file : VfsFile}
    (h : Book old root pid hand m) (hfits : FitsBelowLimit file (processPolicy pid) m)
    (hrun : Memory.loadProcessImage pid file m = (o, m')) (ho : o ≠ .stuck) :
    Book old root pid hand m' := by
  rcases Prog.bind_run hrun ho with ⟨image, m₁, hmap, hrest⟩ | ⟨e, hmap, rfl⟩
  · rcases h.mapImage hfits hmap (by simp) with ⟨_, herr, -⟩ | ⟨image', G, hok, h₁, hnew, hheld⟩
    · cases herr
    obtain rfl := Outcome.ok.inj hok
    obtain ⟨m₂, hfree, h₂, hlast⟩ := Prog.bind_done hrest ho fun _ _ => h₁.freeBlocks hheld hnew
    cases hstatus : image.status with
    | none =>
      rw [hstatus] at hlast
      cases hlast
      exact h₂
    | some e =>
      rw [hstatus] at hlast
      cases hlast
      exact h₂
  · rcases h.mapImage hfits hmap (by simp) with ⟨_, -, h₁⟩ | ⟨_, _, hok, -⟩
    · exact h₁
    · cases hok

end Book

end UnDOS.Memory

import VirtualMemory.Removal

/-!
# The life of a process, and the state the kernel starts in

A new process has no tables until a frame was found for its master table; that frame
starts locked, with every slot unused and every segment entry free. A process whose page
tables are all on the disk or never were gives its master table back when it is deleted;
the destructor does nothing about page tables.
-/

namespace VirtualMemory

open Function UserSpace KernelSystem PageTableL2Entry

/-- The layout without a process. -/
def Layout.none : Layout := ⟨fun _ => .gone, fun _ => blankPage⟩

theorem Layout.sound_none : Layout.none.Sound := nofun

/-- The kernel that the constructor makes, with whatever was in kernel memory. -/
def boot (userspcSize krnlspcSize numOfClusters entrySize : Nat) (userspc disk : Nat → Page)
    (ot : Nat → Nat) (mem : KAddr → Cell) (dice : List Nat) : Except Halt KernelSystem :=
  construct { UserSpace.initial userspcSize numOfClusters userspc disk ot dice with mem := mem }
    krnlspcSize entrySize

/-- A kernel as some constructor call that returns leaves it. -/
def KernelSystem.Booted (s : KernelSystem) : Prop :=
  ∃ (userspcSize krnlspcSize numOfClusters entrySize : Nat) (userspc disk : Nat → Page)
    (ot : Nat → Nat) (mem : KAddr → Cell) (dice : List Nat),
    boot userspcSize krnlspcSize numOfClusters entrySize userspc disk ot mem dice = .ok s

theorem boot_inv {userspcSize krnlspcSize numOfClusters entrySize : Nat}
    {userspc disk : Nat → Page} {ot : Nat → Nat} {mem : KAddr → Cell} {dice : List Nat}
    {s : KernelSystem} (huser : userspcSize ≤ 65536) (hkrnl : krnlspcSize ≤ 65536)
    (hboot :
      boot userspcSize krnlspcSize numOfClusters entrySize userspc disk ot mem dice = .ok s) :
    KernelInv Layout.none noHand noHand s := by
  unfold boot construct at hboot
  simp only at hboot
  split at hboot
  · cases hboot
  · rename_i hroom
    cases hboot
    refine ⟨userInv_start (fun _ => ?_) (fun _ => ?_) ?_ (fun _ => ?_) huser rfl
      (fun _ => decide_eq_true_iff) (Nat.min_le_right _ _) nofun nofun, hkrnl, ?_, .start ?_ ?_, ?_,
      fun _ => rfl, fun _ _ h => absurd rfl h, nofun, nofun, nofun, nofun,
      fun _ => ⟨fun _ => rfl, fun _ => rfl⟩, fun _ _ => ⟨rfl, fun _ => rfl⟩⟩
    · change ¬ (⟨0#16, 0#8, 0#8⟩ : PageTableL2Entry).Resident
      decide
    · change ¬ (⟨0#16, 0#8, 0#8⟩ : PageTableL2Entry).PagedOut
      decide
    · rintro (t | n) c hc
      · cases hc
      · exact hc.1
    · change PageType.usUnused ≠ .usUserPage
      decide
    · exact List.nodup_range.map fun x y hxy => Nat.add_left_cancel hxy
    · rintro (t | n) c hc
      · cases hc
      · exact hc.1
    · intro f
      simp only [List.mem_map, List.mem_range, HasFrame]
      constructor
      · rintro ⟨x, hx, rfl⟩
        omega
      · rintro ⟨hle, hlt⟩
        exact ⟨f - _, by omega, Nat.add_sub_cancel' hle⟩
    · rintro f (hf | hf) <;> cases hf

theorem KernelSystem.Booted.inv {s : KernelSystem} (hstart : s.Booted)
    (huser : s.userspcSize ≤ 65536) (hkrnl : s.krnlspcSize ≤ 65536) :
    KernelInv Layout.none noHand noHand s := by
  obtain ⟨userspcSize, krnlspcSize, numOfClusters, entrySize, userspc, disk, ot, mem, dice,
    hboot⟩ := hstart
  have hsizes : s.userspcSize = userspcSize ∧ s.krnlspcSize = krnlspcSize := by
    unfold boot construct at hboot
    simp only at hboot
    split at hboot
    · cases hboot
    · cases hboot
      exact ⟨rfl, rfl⟩
  rw [hsizes.1] at huser
  rw [hsizes.2] at hkrnl
  exact boot_inv huser hkrnl hboot

/-- A kernel with a few frames above the four reserved ones, and everything else zeroed. -/
def smallKernel (userspcSize frames clusters : Nat) (dice : List Nat) :
    Except Halt KernelSystem :=
  boot userspcSize (4 + frames) clusters 8 (fun _ => blankPage) (fun _ => blankPage) (fun _ => 0)
    (fun _ => ⟨0#16, 0#8, 0#8⟩) dice

theorem smallKernel_booted {userspcSize frames clusters : Nat} {dice : List Nat} {s : KernelSystem}
    (hboot : smallKernel userspcSize frames clusters dice = .ok s) : s.Booted :=
  ⟨_, _, _, _, _, _, _, _, _, hboot⟩

namespace KernelInv

variable {g : Layout} {s s' : KernelSystem} {h f : Nat}

/-- The objects of the kernel once a process was added. -/
structure ProcessAdded (h : Nat) (s s' : KernelSystem) : Prop where
  handle : h = s.nextPcb
  pcbs : ∀ h', h' ≠ h → (s'.pcbs h').map KernelProcess.rest = (s.pcbs h').map KernelProcess.rest
  ssegVec : s'.ssegVec = s.ssegVec
  ssegMap : s'.ssegMap = s.ssegMap
  sscbs : s'.sscbs = s.sscbs
  nextSscb : s'.nextSscb = s.nextSscb
  ssegCount : s'.ssegCount = s.ssegCount

theorem ProcessAdded.trans {s'' : KernelSystem} (hadded : ProcessAdded h s s')
    (hobjects : SameObjects s' s'') : ProcessAdded h s s'' where
  handle := hadded.handle
  pcbs h' hh := (hobjects.pcbs h').trans (hadded.pcbs h' hh)
  ssegVec := hobjects.ssegVec.trans hadded.ssegVec
  ssegMap := hobjects.ssegMap.trans hadded.ssegMap
  sscbs := hobjects.sscbs.trans hadded.sscbs
  nextSscb := hobjects.nextSscb.trans hadded.nextSscb
  ssegCount := hobjects.ssegCount.trans hadded.ssegCount

/-- Where the process was added to a system with the same objects. -/
theorem ProcessAdded.of_same {s₀ : KernelSystem} (hadded : ProcessAdded h s s')
    (hobjects : SameObjects s₀ s) : ProcessAdded h s₀ s' where
  handle := hadded.handle.trans hobjects.nextPcb
  pcbs h' hh := (hadded.pcbs h' hh).trans (hobjects.pcbs h')
  ssegVec := hadded.ssegVec.trans hobjects.ssegVec
  ssegMap := hadded.ssegMap.trans hobjects.ssegMap
  sscbs := hadded.sscbs.trans hobjects.sscbs
  nextSscb := hadded.nextSscb.trans hobjects.nextSscb
  ssegCount := hadded.ssegCount.trans hobjects.ssegCount

/-- A new object has neither a master table nor page tables. -/
theorem newPcb_inv (hinv : KernelInv g noHand noHand s) (hnew : s.newPcb = .ok (h, s')) :
    KernelInv (g.moveMaster h .lost blankPage) noHand noHand s' ∧
      OnlyPaged g s (g.moveMaster h .lost blankPage) s' ∧ ProcessAdded h s s' := by
  unfold newPcb at hnew
  simp only at hnew
  obtain ⟨pcbVec, _, hret⟩ := Outcome.bind_ok hnew
  cases hret
  obtain ⟨hgone, hslots⟩ := hinv.fresh s.nextPcb (Nat.le_refl _)
  have hother : ∀ t, t ≠ .master s.nextPcb →
      (g.moveMaster s.nextPcb .lost blankPage).place t = g.place t :=
    fun t ht => Layout.moveMaster_place_of_ne ht
  have hsame : ∀ t x, g.place t = .frame x →
      (g.moveMaster s.nextPcb .lost blankPage).place t = .frame x := by
    intro t x hx
    rw [hother t, hx]
    rintro rfl
    rw [hgone] at hx
    cases hx
  refine ⟨hinv.moveMaster ⟨fun slot x => by simp [hslots], rfl, rfl, fun _ _ => rfl,
      fun _ hlost => absurd rfl hlost, fun _ _ _ _ => rfl, nofun, nofun,
      fun _ => ⟨_, update_self .., rfl⟩, by simp, fun h' hh => update_of_ne hh _ _,
      Nat.lt_succ_self _,
      Nat.le_succ _, rfl, rfl⟩ ?_ (fun _ _ _ => rfl) hinv.nodup ?_ hinv.typed,
    ⟨fun v _ => ?_, fun t x _ hpin => ?_, ?_, fun h' n _ => ?_, fun h' _ hnone => ?_,
      fun h' _ haway => ?_⟩,
    ⟨rfl, fun h' hh => by simp [hh], rfl, rfl, rfl, rfl, rfl⟩⟩
  · refine hinv.clusters_same fun u x => ?_
    by_cases hu : u = .master s.nextPcb
    · subst u
      simp [hgone]
    · rw [hother u hu]
  · refine hinv.frames_same fun u x => ?_
    by_cases hu : u = .master s.nextPcb
    · subst u
      simp [hgone]
    · rw [hother u hu]
  · rw [Layout.moveMaster_desc]
    exact ⟨.inl rfl, rfl⟩
  · cases t with
    | master h' => exact ⟨hsame _ x hpin.1, hpin.2⟩
    | table h' slot =>
        obtain ⟨hx, m, hm⟩ := hpin
        exact ⟨⟨hsame _ x hx.1, hx.2⟩, m, hsame _ m hm.1, hm.2⟩
  · intro hg h' slot m hm
    have hh : h' ≠ s.nextPcb := by
      rintro rfl
      simp at hm
    rw [Layout.moveMaster_place_table]
    rw [hother _ (by simpa using hh)] at hm
    exact hg h' slot m hm
  · by_cases hh : h' = s.nextPcb
    · subst h'
      rw [Layout.moveMaster_cells_self, hinv.cells_blank (.inl hgone)]
    · rw [Layout.moveMaster_cells_of_ne (by simpa using hh)]
  · refine ⟨?_, fun slot => Layout.moveMaster_place_table ..⟩
    by_cases hh : h' = s.nextPcb
    · exact .inl (hh ▸ hgone)
    · rwa [Layout.NoMaster, hother _ (by simpa using hh)] at hnone
  · refine ⟨fun m hm => ?_, fun slot => Layout.moveMaster_place_table ..⟩
    by_cases hh : h' = s.nextPcb
    · subst h'
      simp at hm
    · exact haway m ((hother _ (by simpa using hh)).symm.trans hm)

theorem initMasterTable_slot (page : Page) (slot : Fin 64) :
    (initMasterTable page (slotCell slot)).toL1.status = PageTableL1Entry.statusUnused := by
  have hlt : (slotCell slot).val < maxPageTablesL1 := slot.isLt
  simp [initMasterTable, hlt]

theorem initMasterTable_seg (page : Page) (n : Fin 192) :
    (initMasterTable page (segCell n)).toSeg.getKind = .free := by
  have hge : ¬ (segCell n).val < maxPageTablesL1 := by
    simp [segCell, maxPageTablesL1]
  simp [initMasterTable, hge]

/-- The frame in hand becomes the master table of a process that has no tables. -/
theorem setMasterTable_inv {s₁ : KernelSystem} (hinv : KernelInv g (· = f) noHand s)
    (hlost : g.place (.master h) = .lost) (hslots : ∀ slot, g.place (.table h slot) = .gone)
    (hset : (s.ksFtUpdate f FrameTableEntry.ftLocked .ksSegTable (.pcb h)).setMasterTable h f =
      .ok s₁) :
    KernelInv (g.moveMaster h (.frame f) (initMasterTable (s.krnlPage f))) noHand noHand s₁ ∧
      Carried (fun _ => False) (· = h) (fun _ => False) g s
        (g.moveMaster h (.frame f) (initMasterTable (s.krnlPage f))) s₁ ∧
      SameObjects s s₁ ∧ (s₁.ksFt f).getLocked = true := by
  obtain ⟨p, hp, _⟩ := hinv.newborn h hlost
  have hne : ∀ t x, g.place t = .frame x → x ≠ f := fun t x ht => hinv.frame_ne_hand ht rfl
  have hhas : s.HasFrame f := hinv.frames.holds_dom (r := .hand f) ⟨rfl, rfl⟩
  unfold setMasterTable at hset
  have hpcb : (s.ksFtUpdate f FrameTableEntry.ftLocked .ksSegTable (.pcb h)).pcb h = .ok p := by
    simp [KernelSystem.pcb, ksFtUpdate, hp]
  simp only [hpcb, Outcome.ok_bind] at hset
  cases hset
  have hsame : ∀ t x, g.place t = .frame x →
      (g.moveMaster h (.frame f) (initMasterTable (s.krnlPage f))).place t = .frame x := by
    intro t x hx
    rw [Layout.moveMaster_place_of_ne, hx]
    rintro rfl
    rw [hlost] at hx
    cases hx
  have hft : ∀ x, x ≠ f → update s.ksFt f ⟨FrameTableEntry.ftLocked, .ksSegTable, some (.pcb h)⟩ x =
      s.ksFt x := fun x hx => update_of_ne hx _ _
  have hself : update s.ksFt f ⟨FrameTableEntry.ftLocked, .ksSegTable, some (.pcb h)⟩ f =
      ⟨FrameTableEntry.ftLocked, .ksSegTable, some (.pcb h)⟩ := update_self ..
  refine ⟨hinv.moveMaster ⟨fun slot x => by simp [hslots], ?_, rfl, ?_, ?_, ?_, ?_,
      (fun c heq => by cases heq), (fun heq => by cases heq), ?_,
      fun h' hh => update_of_ne hh _ _, ?_, Nat.le_refl _, rfl, rfl⟩ ?_ (fun _ _ _ => rfl)
      hinv.nodup ?_ ?_, ⟨fun v _ => ?_, fun t x _ hpin => ?_, ?_, fun h' n hh => ?_,
        fun h' hh hnone => ?_, fun h' hh haway => ?_⟩,
    ⟨rfl, rfl, rfl, rfl, fun h' => ?_, rfl, rfl, rfl, rfl, rfl, rfl, rfl⟩, ?_⟩
  · funext i
    simp only [imageAt, setKrnlPage, KernelSystem.withUser, KernelSystem.setPcb, ksFtUpdate,
      if_true]
    rfl
  · intro t ht
    cases hpl : g.place t with
    | frame x =>
        funext i
        simp [imageAt, setKrnlPage, KernelSystem.withUser, KernelSystem.setPcb, ksFtUpdate,
          hne t x hpl]
    | cluster x => rfl
    | gone | lost => rfl
  · intro _ _ slot
    rw [hslots]
    exact initMasterTable_slot _ slot
  · intro t x ht hx
    exact hft x (hne t x hx)
  · intro x heq
    cases heq
    exact ⟨congrArg (fun e => e.type) hself, congrArg (fun e => e.owner) hself, _,
      update_self .., rfl, rfl, rfl, rfl⟩
  · simp [KernelSystem.setPcb]
  · by_contra hle
    have := (hinv.fresh h (Nat.not_lt.mp hle)).1
    rw [hlost] at this
    cases this
  · refine hinv.clusters_same fun u x => ?_
    by_cases hu : u = .master h
    · subst u
      simp [hlost]
    · rw [Layout.moveMaster_place_of_ne hu]
  · exact hinv.frames_settle rfl (fun x => by simp [noHand]) (by simp [hlost]) (by simp)
      (fun u hu => Layout.moveMaster_place_of_ne hu)
  · intro x hx
    by_cases hxf : x = f
    · exact hxf ▸ hhas
    · simp only [KernelSystem.setPcb, setKrnlPage, KernelSystem.withUser, ksFtUpdate,
        hft x hxf] at hx
      exact hinv.typed x hx
  · rw [Layout.moveMaster_desc]
    exact ⟨.inl rfl, rfl⟩
  · have hlocked : ∀ u y, LockedIn g s u y → (update s.ksFt f
        ⟨FrameTableEntry.ftLocked, .ksSegTable, some (.pcb h)⟩ y).getLocked = true :=
      fun u y hy => (congrArg _ (hft y (hne u y hy.1))).trans hy.2
    cases t with
    | master h' => exact ⟨hsame _ x hpin.1, hlocked _ x hpin⟩
    | table h' slot =>
        obtain ⟨hx, m, hm⟩ := hpin
        exact ⟨⟨hsame _ x hx.1, hlocked _ x hx⟩, m, hsame _ m hm.1, hlocked _ m hm⟩
  · intro hg h' slot m hm
    rw [Layout.moveMaster_place_table]
    by_cases hh : h' = h
    · subst h'
      simp [hslots]
    · rw [Layout.moveMaster_place_of_ne (by simpa using hh)] at hm
      exact hg h' slot m hm
  · rw [Layout.moveMaster_cells_of_ne (by simpa using hh)]
  · rw [Layout.NoMaster, Layout.moveMaster_place_of_ne (by simpa using hh)] at hnone
    exact ⟨hnone, fun slot => Layout.moveMaster_place_table ..⟩
  · refine ⟨fun m' hm' => haway m' ?_, fun slot => Layout.moveMaster_place_table ..⟩
    rwa [Layout.moveMaster_place_of_ne (by simpa using hh)] at hm'
  · by_cases hh : h' = h
    · subst h'
      simp [KernelSystem.setPcb, hp, KernelProcess.rest]
    · simp [KernelSystem.setPcb, setKrnlPage, KernelSystem.withUser, ksFtUpdate, hh]
  · simp [KernelSystem.setPcb, setKrnlPage, KernelSystem.withUser, ksFtUpdate]

/-- The process that `create_process` and `clone_process` start with: its master table is
locked, its slots are unused and its segment entries free. -/
theorem newProcess_inv {page : Nat} (hinv : KernelInv g noHand noHand s) (hsound : g.Sound)
    (hnew : s.newProcess = .ok (h, page, s')) :
    ∃ g', Working g' h page s' ∧
      Carried (fun _ => False) (· = h) (fun _ => False) g s g' s' ∧ ProcessAdded h s s' ∧
      (∀ slot, g'.place (.table h slot) = .gone) ∧
      ∀ n, (g'.segment h n).getKind = .free := by
  unfold newProcess ksAcquirePage at hnew
  obtain ⟨⟨h', s₁⟩, hpcb, hrest⟩ := Outcome.bind_ok hnew
  obtain ⟨⟨f, s₂⟩, hacquire, hrest₁⟩ := Outcome.bind_ok hrest
  obtain ⟨⟨f', s₀⟩, htake, hft⟩ := Outcome.bind_ok hacquire
  obtain ⟨s₃, hset, hret⟩ := Outcome.bind_ok hrest₁
  cases hft
  cases hret
  obtain ⟨hinv₁, hpaged₁, hadded⟩ := hinv.newPcb_inv hpcb
  have hslots₁ : ∀ slot, (g.moveMaster h .lost blankPage).place (.table h slot) = .gone := by
    intro slot
    rw [Layout.moveMaster_place_table, hadded.handle]
    exact (hinv.fresh _ (Nat.le_refl _)).2 slot
  obtain ⟨g₂, hinv₂, hevicted, hfree, _⟩ := hinv₁.ksTakePage_inv htake
  have hmaster : ¬ MakesRoom (g.moveMaster h .lost blankPage) s₁ (.master h) := by
    intro hout
    obtain ⟨⟨m, hm⟩, _⟩ := hevicted.master h hout
    simp at hm
  have hslots₂ : ∀ slot, g₂.place (.table h slot) = .gone := by
    intro slot
    rw [hevicted.place _ fun hout => ?_, hslots₁]
    obtain ⟨x, _, hx, _⟩ | hout' := hevicted.was h slot hout
    · rw [hslots₁] at hx
      cases hx
    · exact hmaster hout'
  have hpaged₂ : OnlyPaged (g.moveMaster h .lost blankPage) s₁ g₂ s₀ := .of_evicted hevicted hfree
  obtain ⟨hinv₃, hcarried₃, hobjects₃, hlocked⟩ := hinv₂.setMasterTable_inv
    (by rw [hevicted.place _ hmaster, Layout.moveMaster_place_self]) hslots₂ hset
  have hcarried := hpaged₁.carried.trans (hpaged₂.carried.trans hcarried₃)
  refine ⟨_, ⟨hinv₃, hcarried.sound hsound, by simp, hlocked⟩, hcarried,
    (hadded.trans hevicted.objects).trans hobjects₃, fun slot => ?_, fun n => ?_⟩
  · rw [Layout.moveMaster_place_table, hslots₂]
  · rw [Layout.segment, Layout.moveMaster_cells_self]
    exact initMasterTable_seg _ n

/-- The process that `create_process` makes. -/
theorem createProcess_inv (hinv : KernelInv g noHand noHand s) (hsound : g.Sound)
    (hcreate : s.createProcess = .ok (h, s')) :
    ∃ g' m, KernelInv g' noHand noHand s' ∧ g'.place (.master h) = .frame m ∧
      Carried (Released h) (· = h) (fun _ => False) g s g' s' ∧ ProcessAdded h s s' ∧
      (∀ slot, g'.place (.table h slot) = .gone) ∧
      ∀ n, (g'.segment h n).getKind = .free := by
  unfold createProcess at hcreate
  obtain ⟨⟨h', m, s₁⟩, hnew, hret⟩ := Outcome.bind_ok hcreate
  cases hret
  obtain ⟨g', hwork, hcarried, hadded, hslots, hfree⟩ := hinv.newProcess_inv hsound hnew
  obtain ⟨htype, howner, _⟩ := hwork.inv.masters h m hwork.master.1
  obtain ⟨hinv', hunlock, hobjects⟩ := hwork.inv.reflag_inv hwork.master.1
    (e := ⟨FrameTableEntry.ftNone, .ksSegTable, some (.pcb h)⟩) htype.symm howner.symm
  exact ⟨g', m, hinv', hwork.master.1, (hcarried.mono nofun (fun _ => id) nofun).trans
    (hunlock.mono (fun _ => id) nofun nofun), hadded.trans hobjects, hslots, hfree⟩

/-- A segment without pages is only unrecorded. -/
theorem deleteSegmentInd_empty {n : Fin 192} {m : Nat} {doReleaseShared : Bool}
    (hwork : Working g h m s) (hlength : (g.segment h n).getLength = 0)
    (hdelete : s.deleteSegmentInd h n doReleaseShared = .ok s') :
    Working (g.setSegment h n ((g.segment h n).setKind .free)) h m s' ∧
      Carried (fun _ => False) (· = h) (fun _ => False) g s
        (g.setSegment h n ((g.segment h n).setKind .free)) s' ∧ SameObjects s s' := by
  obtain ⟨p, hp, hpcb, hat⟩ := hwork.inv.pcb_ok hwork.master.1
  unfold deleteSegmentInd at hdelete
  simp only [hp, Outcome.ok_bind, KernelInv.index_ste hat, hwork.inv.ste_eq hwork.master.1,
    hlength, List.range_zero, List.foldlM_nil, Pure.pure, Except.pure] at hdelete
  cases hdelete
  exact hwork.counted hpcb _

/-- A segment of a process without page tables is not removed page by page. -/
theorem deleteSegmentInd_gone {n : Fin 192} {m : Nat} {doReleaseShared : Bool}
    (hwork : Working g h m s) (hslots : ∀ slot, g.place (.table h slot) = .gone)
    (hdelete : s.deleteSegmentInd h n doReleaseShared = .ok s') :
    (g.segment h n).getLength = 0 := by
  obtain ⟨p, hp, _, hat⟩ := hwork.inv.pcb_ok hwork.master.1
  unfold deleteSegmentInd at hdelete
  simp only [hp, Outcome.ok_bind, KernelInv.index_ste hat, hwork.inv.ste_eq hwork.master.1]
    at hdelete
  obtain ⟨r, hloop, _⟩ := Outcome.bind_ok hdelete
  by_contra hpages
  obtain ⟨k, hk⟩ := Nat.exists_eq_succ_of_ne_zero hpages
  rw [hk, List.range_succ_eq_map, List.foldlM_cons] at hloop
  obtain ⟨r₁, hfirst, _⟩ := Outcome.bind_ok hloop
  have hagree := hwork.inv.agrees hwork.master.1
    (slotOf (pageAddr ((g.segment h n).start * pageSize) 0))
  rw [hslots] at hagree
  unfold deletePage at hfirst
  simp only [hwork.inv.accessPtl1_eq hwork.master.1, deref, Outcome.ok_bind,
    show _ = PageTableL1Entry.statusUnused from hagree, if_true] at hfirst
  cases hfirst

/-- The loop of the destructor where the process has no page tables. -/
theorem destroyEntries_inv {m : Nat} (hwork : Working g h m s)
    (hslots : ∀ slot, g.place (.table h slot) = .gone)
    (hloop : (List.range maxSegments).foldlM (destroyEntry h) s = .ok s') :
    ∃ g', Working g' h m s' ∧ g'.place = g.place ∧
      Carried (fun _ => False) (· = h) (fun _ => False) g s g' s' ∧ SameObjects s s' := by
  let I : List Nat → KernelSystem → Prop := fun rest u =>
    (∀ i ∈ rest, i < 192) ∧ ∃ g', Working g' h m u ∧ g'.place = g.place ∧
      Carried (fun _ => False) (· = h) (fun _ => False) g s g' u ∧ SameObjects s u
  have hstep : ∀ i rest u u', I (i :: rest) u → destroyEntry h u i = .ok u' → I rest u' := by
    rintro i rest u u' ⟨hlt, g₁, hwork₁, hplace₁, hcarried₁, hobjects₁⟩ hi
    obtain ⟨p, hp, _, hat⟩ := hwork₁.inv.pcb_ok hwork₁.master.1
    have hslots₁ : ∀ slot, g₁.place (.table h slot) = .gone := by
      rw [hplace₁]
      exact hslots
    have hi192 : i < 192 := hlt i (by simp)
    unfold destroyEntry at hi
    have hste : u.ste (p.stPtr.index i) = g₁.segment h ⟨i, hi192⟩ := by
      rw [KernelInv.index_ste hat ⟨i, hi192⟩, hwork₁.inv.ste_eq hwork₁.master.1]
    simp only [hp, Outcome.ok_bind, hste] at hi
    refine ⟨fun j hj => hlt j (by simp [hj]), ?_⟩
    split at hi
    · have hlength := deleteSegmentInd_gone (n := ⟨i, hi192⟩) hwork₁ hslots₁ hi
      obtain ⟨hwork₂, hcarried₂, hobjects₂⟩ :=
        deleteSegmentInd_empty (n := ⟨i, hi192⟩) hwork₁ hlength hi
      exact ⟨_, hwork₂, hplace₁, hcarried₁.trans hcarried₂, hobjects₁.trans hobjects₂⟩
    · cases hi
      exact ⟨g₁, hwork₁, hplace₁, hcarried₁, hobjects₁⟩
  obtain ⟨_, g', hwork', hplace, hcarried, hobjects⟩ := Outcome.foldlM_ok I hstep
    ⟨fun i hi => by simpa [maxSegments] using hi, g, hwork, rfl, .refl g s, .refl s⟩ hloop
  exact ⟨g', hwork', hplace, hcarried, hobjects⟩

/-- The state once a process object and its master table are gone. -/
def without (s : KernelSystem) (h m : Nat) (pcbVec : ConsVec (Option Nat)) : KernelSystem :=
  { (s.ksRelinquishPage m).ksUnlockPage m with pcbVec := pcbVec, pcbs := update s.pcbs h none }

theorem without_inv {m : Nat} (hinv : KernelInv g noHand noHand s)
    (pcbVec : ConsVec (Option Nat)) (hm : g.place (.master h) = .frame m)
    (halone : ∀ slot f, g.place (.table h slot) ≠ .frame f) :
    KernelInv (g.moveMaster h .gone blankPage) noHand noHand (without s h m pcbVec) ∧
      Carried (Released h) (· = h) (fun _ => False) g s (g.moveMaster h .gone blankPage)
        (without s h m pcbVec) := by
  have hft : ∀ x, x ≠ m → (without s h m pcbVec).ksFt x = s.ksFt x :=
    fun x hx => update_of_ne hx _ _
  have hother : ∀ t x, t ≠ .master h → g.place t = .frame x → x ≠ m := by
    rintro t x ht hx rfl
    exact ht (hinv.frame_inj hx hm)
  refine ⟨hinv.moveMaster ⟨halone, rfl, rfl, fun _ _ => rfl, fun hgone => absurd rfl hgone,
      fun t x ht hx => hft x (hother t x ht hx), nofun, nofun, nofun, by simp [without],
      fun h' hh => update_of_ne hh _ _, ?_, Nat.le_refl _, rfl, rfl⟩ ?_ (fun _ _ _ => rfl)
      (hinv.nodup_concat hm) ?_ ?_,
    ⟨fun v _ => ?_, fun t x ht hpin => ?_, ?_, fun h' n hh => ?_, fun h' hh hnone => ?_,
      fun h' hh haway => ?_⟩⟩
  · by_contra hle
    have := (hinv.fresh h (Nat.not_lt.mp hle)).1
    rw [hm] at this
    cases this
  · refine hinv.clusters_same fun u x => ?_
    by_cases hu : u = .master h
    · subst u
      simp [hm]
    · rw [Layout.moveMaster_place_of_ne hu]
  · exact hinv.frames_give hm (by simp) (fun u hu => Layout.moveMaster_place_of_ne hu)
  · intro x hx
    by_cases hxm : x = m
    · exact hxm ▸ hinv.hasFrame hm
    · rw [hft x hxm] at hx
      exact hinv.typed x hx
  · rw [Layout.moveMaster_desc]
    exact ⟨.inl rfl, rfl⟩
  · cases t with
    | table h' slot => exact absurd (.inr ⟨h', slot, rfl⟩) ht
    | master h' =>
        obtain ⟨hx, hl⟩ := hpin
        have hne : KTable.master h' ≠ .master h := fun heq => ht (.inl heq)
        exact ⟨by rwa [Layout.moveMaster_place_of_ne hne], by rwa [hft x (hother _ x hne hx)]⟩
  · intro hg h' slot m' hm'
    have hh : h' ≠ h := by
      rintro rfl
      simp at hm'
    rw [Layout.moveMaster_place_table]
    rw [Layout.moveMaster_place_of_ne (by simpa using hh)] at hm'
    exact hg h' slot m' hm'
  · rw [Layout.moveMaster_cells_of_ne (by simpa using hh)]
  · rw [Layout.NoMaster, Layout.moveMaster_place_of_ne (by simpa using hh)] at hnone
    exact ⟨hnone, fun slot => Layout.moveMaster_place_table ..⟩
  · refine ⟨fun m' hm' => haway m' ?_, fun slot => Layout.moveMaster_place_table ..⟩
    rwa [Layout.moveMaster_place_of_ne (by simpa using hh)] at hm'

/-- The destructor on a process that has no page tables. -/
theorem deleteProcess_inv {m : Nat} (hinv : KernelInv g noHand noHand s) (hsound : g.Sound)
    (hm : g.place (.master h) = .frame m) (hslots : ∀ slot, g.place (.table h slot) = .gone)
    (hdelete : s.deleteProcess h = .ok s') :
    ∃ g', KernelInv g' noHand noHand s' ∧
      Carried (Released h) (· = h) (fun _ => False) g s g' s' ∧
      g'.place (.master h) = .gone ∧ (∀ t, t ≠ .master h → g'.place t = g.place t) ∧
      m ∈ s'.ksEmpty := by
  obtain ⟨hwork, hlock, hobjects⟩ := hinv.working hsound hm
  unfold deleteProcess at hdelete
  simp only [hinv.masterTableLock_ok hm, Outcome.ok_bind] at hdelete
  obtain ⟨s₁, hloop, hrest⟩ := Outcome.bind_ok hdelete
  obtain ⟨g₁, hwork₁, hplace₁, hcarried₁, hobjects₁⟩ := destroyEntries_inv hwork hslots hloop
  obtain ⟨p, hp, hrest₁⟩ := Outcome.bind_ok hrest
  obtain ⟨pcbVec, _, hret⟩ := Outcome.bind_ok hrest₁
  cases hret
  have halone₁ : ∀ slot f, g₁.place (.table h slot) ≠ .frame f := by
    intro slot f hf
    rw [hplace₁, hslots] at hf
    cases hf
  obtain ⟨hinv₂, hcarried₂⟩ := hwork₁.inv.without_inv pcbVec hwork₁.master.1 halone₁
  refine ⟨_, hinv₂,
    hlock.carried.trans ((hcarried₁.mono nofun (fun _ => id) nofun).trans hcarried₂),
    by simp, fun t ht => ?_, ?_⟩
  · rw [Layout.moveMaster_place_of_ne ht, hplace₁]
  · simp [ksUnlockPage, ksRelinquishPage, ksFreePage]

end KernelInv

end VirtualMemory

import VirtualMemory.KernelSteps

/-!
# Creating segments

`create_segment` and `load_segment` on a process whose master table is resident: the pages
of the range get descriptors of their own, the segment is recorded, and whatever was
evicted on the way, no other page and no other record is touched. The pages of a range
are told apart by their numbers, of which a process has `2 ^ 14`.
-/

namespace VirtualMemory

open Function UserSpace KernelSystem PageTableL2Entry

/-- The number of a page in its process. -/
def LPage.number (v : LPage) : Nat := v.slot * 256 + v.cell

theorem LPage.eq_of_number {v v' : LPage} (hproc : v.proc = v'.proc)
    (hnumber : v.number = v'.number) : v = v' := by
  obtain ⟨h, ⟨slot, hslot⟩, ⟨cell, hcell⟩⟩ := v
  obtain ⟨h', ⟨slot', hslot'⟩, ⟨cell', hcell'⟩⟩ := v'
  simp only [number] at hnumber
  have : slot = slot' := by omega
  have : cell = cell' := by omega
  simp_all

@[simp] theorem proc_pageOf (h addr : Nat) : (pageOf h addr).proc = h := rfl

theorem number_pageOf (h addr : Nat) : (pageOf h addr).number = addr / 1024 % 16384 := by
  simp only [LPage.number, pageOf, slotOf, cellOf, ptl1Slot, ptl2Slot]
  omega

/-- The pages of a range follow each other, around the end of the address space. -/
theorem number_pageAddr (h startAddr i : Nat) :
    (pageOf h (pageAddr startAddr i)).number = (startAddr / 1024 + i) % 16384 := by
  rw [number_pageOf, pageAddr, pageSize]
  omega

/-- A range no longer than the address space has no page twice. -/
theorem pageAddr_inj {h startAddr i j : Nat} (hi : i < 16384) (hj : j < 16384)
    (heq : pageOf h (pageAddr startAddr i) = pageOf h (pageAddr startAddr j)) : i = j := by
  have hnumber := congrArg LPage.number heq
  rw [number_pageAddr, number_pageAddr] at hnumber
  omega

/-- The pages that a call on a range is about. -/
def InRange (h startAddr size : Nat) (v : LPage) : Prop :=
  ∃ i < size, v = pageOf h (pageAddr startAddr i)

/-- An entry of a process's segment table. -/
def Layout.segment (g : Layout) (h : Nat) (n : Fin 192) : SegTableEntry :=
  (g.cells (.master h) (segCell n)).toSeg

/-- The layout with another segment entry. -/
def Layout.setSegment (g : Layout) (h : Nat) (n : Fin 192) (e : SegTableEntry) : Layout where
  place := g.place
  cells := update g.cells (.master h) (update (g.cells (.master h)) (segCell n) e.toCell)

namespace Layout

variable {g : Layout} {h : Nat} {n : Fin 192} {e : SegTableEntry}

@[simp] theorem setSegment_place : (g.setSegment h n e).place = g.place := rfl

@[simp] theorem setSegment_desc : (g.setSegment h n e).desc = g.desc := by
  funext v
  simp [desc, setSegment]

@[simp] theorem setSegment_addr : (g.setSegment h n e).addr = g.addr := rfl

theorem segment_setSegment (n' : Fin 192) :
    (g.setSegment h n e).segment h n' = if n' = n then e else g.segment h n' := by
  have hcell : segCell n' = segCell n ↔ n' = n := by
    simp [segCell, Fin.ext_iff]
  by_cases hn : n' = n
  · simp [segment, setSegment, hn]
  · simp [segment, setSegment, hn, hcell]

end Layout

namespace KernelInv

variable {g : Layout} {hand handC : Nat → Prop} {s s' : KernelSystem} {h m : Nat} {n : Fin 192}

theorem ste_eq (hinv : KernelInv g hand handC s) (hm : g.place (.master h) = .frame m) :
    s.ste ⟨m, segCell n⟩ = g.segment h n := by
  rw [KernelSystem.ste, hinv.mem_eq hm]
  rfl

/-- The entry of the segment table, as the code reads it. -/
theorem index_ste {p : KernelProcess} (hat : p.At m) (n : Fin 192) :
    p.stPtr.index n = ⟨m, segCell n⟩ := by
  rw [hat.stPtr, index_segCell]

theorem setSegment (hinv : KernelInv g hand handC s) (hm : g.place (.master h) = .frame m)
    (e : SegTableEntry) :
    KernelInv (g.setSegment h n e) hand handC (s.setSte ⟨m, segCell n⟩ e) := by
  have hother : ∀ f i, f ≠ m → (s.setSte ⟨m, segCell n⟩ e).mem ⟨f, i⟩ = s.mem ⟨f, i⟩ := by
    intro f i hf
    simp [setSte, KernelSystem.withUser, setPte, hf]
  have himage : ∀ t, imageAt (s.setSte ⟨m, segCell n⟩ e).toUserSpace (g.place t) =
      (g.setSegment h n e).cells t := by
    intro t
    by_cases ht : t = .master h
    · subst t
      rw [hm]
      funext i
      by_cases hi : i = segCell n
      · simp [imageAt, setSte, KernelSystem.withUser, setPte, Layout.setSegment, hi]
      · simp [imageAt, setSte, KernelSystem.withUser, setPte, Layout.setSegment, hi,
          hinv.mem_eq hm]
    · simp only [Layout.setSegment, update_of_ne ht]
      refine hinv.image_other (fun x i hx => hother x i ?_) (fun _ _ => rfl)
      rintro rfl
      exact ht (hinv.frame_inj hx hm)
  refine ⟨?_, hinv.krnl_le, hinv.nodup, hinv.frames, hinv.typed, himage, ?_, hinv.tables,
    hinv.masters, hinv.stored, hinv.newborn, hinv.live, hinv.fresh⟩
  · exact hinv.relocated Layout.setSegment_desc (fun _ _ => rfl) (fun _ _ => himage _)
      hinv.frames rfl hinv.user.clusters.ledger (fun _ _ _ => rfl)
  · intro h' slot hgone hlost
    have hcell : (g.setSegment h n e).cells (.master h') (slotCell slot) =
        g.cells (.master h') (slotCell slot) := by
      by_cases hh : h' = h
      · simp [Layout.setSegment, hh, slotCell_ne_segCell]
      · simp [Layout.setSegment, hh]
    rw [hcell]
    exact hinv.entries h' slot hgone hlost

/-- A process object keeps its tables. -/
theorem setPcb {p p' : KernelProcess} (hinv : KernelInv g hand handC s) (hp : s.pcbs h = some p)
    (hat : ∀ m, p.At m → p'.At m) (hvalid : p'.masterTableValid = p.masterTableValid)
    (hdisk : p'.mtDisk = p.mtDisk) : KernelInv g hand handC (s.setPcb h p') := by
  refine ⟨hinv.user, hinv.krnl_le, hinv.nodup, hinv.frames, hinv.typed, hinv.image, hinv.entries,
    hinv.tables, ?_, ?_, ?_, ?_, ?_⟩
  · intro h' m' hm'
    obtain ⟨htype, howner, q, hq, hqat⟩ := hinv.masters h' m' hm'
    refine ⟨htype, howner, ?_⟩
    by_cases hh : h' = h
    · subst h'
      rw [hp] at hq
      cases hq
      exact ⟨p', by simp [KernelSystem.setPcb], hat m' hqat⟩
    · exact ⟨q, by simpa [KernelSystem.setPcb, hh] using hq, hqat⟩
  · intro h' c hc
    obtain ⟨q, hq, hqvalid, hqdisk⟩ := hinv.stored h' c hc
    by_cases hh : h' = h
    · subst h'
      rw [hp] at hq
      cases hq
      exact ⟨p', by simp [KernelSystem.setPcb], by rw [hvalid, hqvalid], by rw [hdisk, hqdisk]⟩
    · exact ⟨q, by simpa [KernelSystem.setPcb, hh] using hq, hqvalid, hqdisk⟩
  · intro h' hl
    obtain ⟨q, hq, hqvalid⟩ := hinv.newborn h' hl
    by_cases hh : h' = h
    · subst h'
      rw [hp] at hq
      cases hq
      exact ⟨p', by simp [KernelSystem.setPcb], by rw [hvalid, hqvalid]⟩
    · exact ⟨q, by simpa [KernelSystem.setPcb, hh] using hq, hqvalid⟩
  · intro h'
    by_cases hh : h' = h
    · subst h'
      have hlive := hinv.live h
      rw [hp] at hlive
      simpa [KernelSystem.setPcb] using hlive
    · simpa [KernelSystem.setPcb, hh] using hinv.live h'
  · intro h' hh'
    have hh : h' ≠ h := by
      rintro rfl
      have := (hinv.fresh h' hh').1
      rw [← hinv.live h', hp] at this
      cases this
    exact hinv.fresh h' hh'

/-- A resident master table is locked where it is. -/
theorem masterTableLock_ok (hinv : KernelInv g hand handC s)
    (hm : g.place (.master h) = .frame m) : s.masterTableLock h = .ok (m, s.ksLockPage m) := by
  obtain ⟨p, hp, _, hat⟩ := hinv.pcb_ok hm
  simp [masterTableLock, hp, hat.valid, hat.masterTable]

end KernelInv

/-- What an operation on process `h` may unlock: its master table, and page tables. -/
def Released (h : Nat) (t : KTable) : Prop := t = .master h ∨ t.IsTable

/-- Between two steps of an operation on process `h`, whose master table is in frame `m`. -/
structure Working (g : Layout) (h m : Nat) (s : KernelSystem) : Prop where
  inv : KernelInv g noHand noHand s
  sound : g.Sound
  master : LockedIn g s (.master h) m

theorem KTable.master_not_table (h : Nat) : ¬ (KTable.master h).IsTable := by
  rintro ⟨_, _, ⟨⟩⟩

namespace Working

variable {g g' : Layout} {s s' : KernelSystem} {h m : Nat} {loose : KTable → Prop}
  {mine : Nat → Prop} {but : LPage → Prop}

/-- What does not unlock the master table keeps the work going. -/
theorem carry (hwork : Working g h m s) (hinv : KernelInv g' noHand noHand s')
    (hcarried : Carried loose mine but g s g' s') (hloose : ¬ loose (.master h)) :
    Working g' h m s' :=
  ⟨hinv, hcarried.sound hwork.sound, hcarried.stay (.master h) m hloose hwork.master⟩

/-- The entry of a segment as it is recorded over an old one. -/
def recorded (e : SegTableEntry) (ordinal size : Nat) (kind : KindEnum) : SegTableEntry :=
  ((e.setStartPage ordinal).setKind kind).setLength size

/-- Counting a segment changes nothing that a table or another object depends on. -/
theorem counted {n : Fin 192} {e : SegTableEntry} {p : KernelProcess}
    (hwork : Working g h m s) (hp : s.pcbs h = some p) (count : Nat) :
    Working (g.setSegment h n e) h m
        ((s.setSte ⟨m, segCell n⟩ e).setPcb h { p with segCount := count }) ∧
      Carried (fun _ => False) (· = h) (fun _ => False) g s (g.setSegment h n e)
        ((s.setSte ⟨m, segCell n⟩ e).setPcb h { p with segCount := count }) ∧
      SameObjects s ((s.setSte ⟨m, segCell n⟩ e).setPcb h { p with segCount := count }) := by
  have hcarried : Carried (fun _ => False) (· = h) (fun _ => False) g s (g.setSegment h n e)
      ((s.setSte ⟨m, segCell n⟩ e).setPcb h { p with segCount := count }) := by
    refine ⟨fun v _ => ?_, fun t f _ hpin => ?_, fun hg => hg, fun h' n' hh => ?_,
      fun _ _ hnone => ⟨hnone, fun _ => rfl⟩, fun _ _ haway => ⟨haway, fun _ => rfl⟩⟩
    · rw [Layout.setSegment_desc]
      exact ⟨.inl rfl, rfl⟩
    · cases t with
      | master h' => exact hpin
      | table h' slot => exact hpin
    · simp [Layout.setSegment, show h' ≠ h from hh]
  have hinv : KernelInv (g.setSegment h n e) noHand noHand
      ((s.setSte ⟨m, segCell n⟩ e).setPcb h { p with segCount := count }) :=
    (hwork.inv.setSegment hwork.master.1 e).setPcb hp
      (fun _ hat => ⟨hat.valid, hat.masterTable, hat.ptl1Ptr, hat.stPtr⟩) rfl rfl
  refine ⟨⟨hinv, hwork.sound, hwork.master⟩, hcarried,
    ⟨rfl, rfl, rfl, rfl, fun h' => ?_, rfl, rfl, rfl, rfl, rfl, rfl, rfl⟩⟩
  by_cases hh : h' = h
  · subst h'
    simp [KernelSystem.setPcb, hp, KernelProcess.rest]
  · simp [KernelSystem.setPcb, setSte, KernelSystem.withUser, hh]

/-- The free entry that `recordSegment` uses, and what it writes there. -/
theorem recordSegment_ok {ordinal size entry : Nat} {kind : KindEnum} (hwork : Working g h m s)
    (hrecord : s.recordSegment h ordinal size kind = .ok (entry, s')) :
    ∃ n : Fin 192, entry = n ∧ (g.segment h n).getKind = .free ∧
      Working (g.setSegment h n (recorded (g.segment h n) ordinal size kind)) h m s' ∧
      Carried (fun _ => False) (· = h) (fun _ => False) g s
        (g.setSegment h n (recorded (g.segment h n) ordinal size kind)) s' ∧
      SameObjects s s' := by
  obtain ⟨p, hp, hpcb, hat⟩ := hwork.inv.pcb_ok hwork.master.1
  unfold recordSegment at hrecord
  simp only [hp, Outcome.ok_bind] at hrecord
  split at hrecord
  · cases hrecord
  · rename_i i hfind
    have hlt : i < 192 := by simpa [maxSegments] using List.mem_of_find?_eq_some hfind
    have hfree := List.find?_some hfind
    have hste : p.stPtr.index i = ⟨m, segCell ⟨i, hlt⟩⟩ := KernelInv.index_ste hat ⟨i, hlt⟩
    rw [hste] at hrecord hfree
    rw [hwork.inv.ste_eq hwork.master.1, decide_eq_true_eq] at hfree
    simp only [hwork.inv.ste_eq hwork.master.1, Except.ok.injEq, Prod.mk.injEq] at hrecord
    obtain ⟨rfl, rfl⟩ := hrecord
    exact ⟨⟨i, hlt⟩, rfl, hfree, hwork.counted hpcb _⟩

/-- The entry that is used is the first free one. -/
theorem recordSegment_first {ordinal size entry : Nat} {kind : KindEnum}
    (hwork : Working g h m s)
    (hrecord : s.recordSegment h ordinal size kind = .ok (entry, s')) (n : Fin 192)
    (hn : n < entry) : (g.segment h n).getKind ≠ .free := by
  obtain ⟨p, hp, _, hat⟩ := hwork.inv.pcb_ok hwork.master.1
  unfold recordSegment at hrecord
  simp only [hp, Outcome.ok_bind] at hrecord
  split at hrecord
  · cases hrecord
  · rename_i i hfind
    cases hrecord
    have hnot := (List.find?_range_eq_some.mp hfind).2.2 n hn
    rw [KernelInv.index_ste hat, hwork.inv.ste_eq hwork.master.1] at hnot
    simpa using hnot

/-- A loop over the pages of a range that works on one page after the other: `R` is what
becomes of a page, whatever else is paged out later, and `J` an invariant, which may mention
the pages still to come. -/
theorem pages {α : Type} (state : α → KernelSystem) {step : α → Nat → Except Halt α}
    {a a' : α} {startAddr size : Nat} {J : List Nat → α → Prop}
    {R : Nat → UserSpace KAddr → PageTableL2Entry → Prop} (hwork : Working g h m (state a))
    (hsize : size ≤ 16384) (hJ : J (List.range size) a)
    (hstable : ∀ i us e us' e', Kept us e us' e' → R i us e → R i us' e')
    (hstep : ∀ i < size, ∀ rest g₁ a₁ a₂, i ∉ rest → Working g₁ h m (state a₁) →
      J (i :: rest) a₁ →
      Carried KTable.IsTable (fun _ => False)
        (fun v => InRange h startAddr size v ∧ v ≠ pageOf h (pageAddr startAddr i))
        g (state a) g₁ (state a₁) →
      step a₁ i = .ok a₂ →
      ∃ g₂, KernelInv g₂ noHand noHand (state a₂) ∧
        Carried KTable.IsTable (fun _ => False) (· = pageOf h (pageAddr startAddr i))
          g₁ (state a₁) g₂ (state a₂) ∧
        J rest a₂ ∧ R i (state a₂).toUserSpace (g₂.desc (pageOf h (pageAddr startAddr i))))
    (hloop : (List.range size).foldlM step a = .ok a') :
    ∃ g', Working g' h m (state a') ∧
      Carried KTable.IsTable (fun _ => False) (InRange h startAddr size) g (state a) g' (state a') ∧
      J [] a' ∧ ∀ i < size,
        R i (state a').toUserSpace (g'.desc (pageOf h (pageAddr startAddr i))) := by
  let I : List Nat → α → Prop := fun rest b =>
    (∀ i ∈ rest, i < size) ∧ rest.Nodup ∧ J rest b ∧ ∃ g₁, Working g₁ h m (state b) ∧
      Carried KTable.IsTable (fun _ => False)
        (fun v => ∃ i < size, i ∉ rest ∧ v = pageOf h (pageAddr startAddr i))
        g (state a) g₁ (state b) ∧
      ∀ i < size, i ∉ rest →
        R i (state b).toUserSpace (g₁.desc (pageOf h (pageAddr startAddr i)))
  have hI : ∀ i rest b c, I (i :: rest) b → step b i = .ok c → I rest c := by
    rintro i rest b c ⟨hlt, hnodup, hJb, g₁, hwork₁, hcarried₁, hdone⟩ hi
    have hisize := hlt i (by simp)
    obtain ⟨hirest, hrest⟩ := List.nodup_cons.mp hnodup
    have hpage : ∀ j < size, pageOf h (pageAddr startAddr j) = pageOf h (pageAddr startAddr i) →
        j = i := fun j hj heq => pageAddr_inj (by omega) (by omega) heq
    obtain ⟨g₂, hinv₂, hcarried₂, hJc, hR⟩ := hstep i hisize rest g₁ b c hirest hwork₁ hJb
      (hcarried₁.mono (fun _ => id) (fun _ => id) (by
        rintro v ⟨j, hj, hnot, rfl⟩
        refine ⟨⟨j, hj, rfl⟩, fun heq => hnot ?_⟩
        rw [hpage j hj heq]
        simp)) hi
    refine ⟨fun j hj => hlt j (by simp [hj]), hrest, hJc, g₂,
      hwork₁.carry hinv₂ hcarried₂ (KTable.master_not_table h),
      (hcarried₁.mono (fun _ => id) (fun _ => id) ?_).trans
        (hcarried₂.mono (fun _ => id) (fun _ => id) ?_), ?_⟩
    · rintro v ⟨j, hj, hnot, rfl⟩
      exact ⟨j, hj, fun hmem => hnot (by simp [hmem]), rfl⟩
    · rintro v rfl
      exact ⟨i, hisize, hirest, rfl⟩
    · intro j hj hnot
      by_cases hji : j = i
      · subst j
        exact hR
      · refine hstable j _ _ _ _ (hcarried₂.pages _ fun heq => hji (hpage j hj heq)) ?_
        exact hdone j hj (by simp [hji, hnot])
  have hstart : I (List.range size) a := by
    refine ⟨fun i hi => List.mem_range.mp hi, List.nodup_range, hJ, g, hwork, .refl _ _, ?_⟩
    intro i hi hnot
    exact absurd (List.mem_range.mpr hi) hnot
  obtain ⟨_, _, hJ', g', hwork', hcarried, hdone⟩ := Outcome.foldlM_ok I hI hstart hloop
  refine ⟨g', hwork', hcarried.mono (fun _ => id) (fun _ => id) ?_, hJ',
    fun i hi => hdone i hi (by simp)⟩
  rintro v ⟨i, hi, _, rfl⟩
  exact ⟨i, hi, rfl⟩

/-- The loop of the calls that create a segment, for work on a descriptor that leaves its
page table in memory. -/
theorem fillSegment_ok {startAddr size : Nat}
    {work : KernelSystem → KAddr → Nat → Except Halt KernelSystem}
    {J : List Nat → KernelSystem → Prop}
    {R : Nat → UserSpace KAddr → PageTableL2Entry → Prop} (hwork : Working g h m s)
    (hsize : size ≤ 16384) (hJ : J (List.range size) s)
    (hobjects : ∀ rest s₁ s₂, SameObjects s₁ s₂ → J rest s₁ → J rest s₂)
    (hstable : ∀ i us e us' e', Kept us e us' e' → R i us e → R i us' e')
    (hpage : ∀ i < size, ∀ rest g₁ s₁ f s₂, i ∉ rest → Working g₁ h m s₁ → J (i :: rest) s₁ →
      Carried KTable.IsTable (fun _ => False)
        (fun v => InRange h startAddr size v ∧ v ≠ pageOf h (pageAddr startAddr i)) g s g₁ s₁ →
      KernelInv.InMemory g₁ h (slotOf (pageAddr startAddr i)) m f true s₁ →
      work s₁ ⟨f, cellOf (pageAddr startAddr i)⟩ i = .ok s₂ →
      ∃ g₂, KernelInv g₂ noHand noHand s₂ ∧
        Carried KTable.IsTable (fun _ => False) (· = pageOf h (pageAddr startAddr i)) g₁ s₁ g₂ s₂ ∧
        g₂.place (.table h (slotOf (pageAddr startAddr i))) = .frame f ∧
        J rest s₂ ∧ R i s₂.toUserSpace (g₂.desc (pageOf h (pageAddr startAddr i))))
    (hfill : s.fillSegment h startAddr size work = .ok s') :
    ∃ g', Working g' h m s' ∧
      Carried KTable.IsTable (fun _ => False) (InRange h startAddr size) g s g' s' ∧
      J [] s' ∧ ∀ i < size, R i s'.toUserSpace (g'.desc (pageOf h (pageAddr startAddr i))) := by
  refine hwork.pages id hsize hJ hstable ?_ hfill
  intro i hi rest g₁ s₁ s₃ hrest hwork₁ hJ₁ hcarried₁ hstep
  obtain ⟨g₂, s₂, f, s₂', hinv₂, hcarried₂, hobjects₂, hin, hdo, rfl⟩ :=
    hwork₁.inv.segmentPage_ok hwork₁.sound hwork₁.master hstep
  have hwork₂ := hwork₁.carry hinv₂ hcarried₂ id
  have hto : Carried KTable.IsTable (fun _ => False) (fun _ => False) g₁ s₁ g₂ s₂ :=
    OnlyPaged.carried hcarried₂
  obtain ⟨g₃, hinv₃, hcarried₃, hplace, hJ₃, hR⟩ := hpage i hi rest g₂ s₂ f s₂' hrest hwork₂
    (hobjects _ _ _ hobjects₂ hJ₁) (hcarried₁.trans (hto.mono (fun _ => id) nofun nofun)) hin hdo
  obtain ⟨hinv₄, hunlock, hobjects₄⟩ := hinv₃.pageUnlock_inv hplace
  refine ⟨g₃, hinv₄, (hto.mono (fun _ => id) nofun nofun).trans (hcarried₃.trans
    (hunlock.mono ?_ nofun nofun)), hobjects _ _ _ hobjects₄ hJ₃, ?_⟩
  · rintro u (rfl | hu)
    · exact ⟨h, _, rfl⟩
    · exact hu
  · exact hstable i _ _ _ _ (hunlock.pages _ id) hR

/-- The end of an operation: the master table is unlocked. -/
theorem unlocked (hwork : Working g h m s) :
    KernelInv g noHand noHand (s.pageUnlock m) ∧
      Carried (Released h) (fun _ => False) (fun _ => False) g s g
        (s.pageUnlock m) ∧ SameObjects s (s.pageUnlock m) :=
  hwork.inv.pageUnlock_inv hwork.master.1

end Working

/-- The start of an operation: the resident master table is locked. -/
theorem KernelInv.working {g : Layout} {s : KernelSystem} {h m : Nat}
    (hinv : KernelInv g noHand noHand s) (hsound : g.Sound)
    (hm : g.place (.master h) = .frame m) :
    Working g h m (s.ksLockPage m) ∧
      OnlyPaged g s g (s.ksLockPage m) ∧
      SameObjects s (s.ksLockPage m) := by
  obtain ⟨hinv', hcarried, hobjects⟩ := hinv.ksLockPage_inv m
  exact ⟨⟨hinv', hsound, hm, by simp [ksLockPage]⟩, hcarried, hobjects⟩

/-- What the segment table of a process looks like after a segment was created. -/
structure NewSegment (g : Layout) (h ordinal startAddr size : Nat) (kind : KindEnum)
    (g' : Layout) : Prop where
  size_le : size ≤ 16384
  clear : ∀ n, overlaps (g.segment h n) ordinal startAddr size = false
  entry : ∃ n, (g.segment h n).getKind = .free ∧ ∀ n', g'.segment h n' =
    if n' = n then Working.recorded (g.segment h n) ordinal size kind else g.segment h n'

section Create

variable {g : Layout} {s s' : KernelSystem} {h m ordinal startAddr size : Nat} {status : Status}

theorem KernelInv.anyOverlap_eq {p : KernelProcess} (hinv : KernelInv g noHand noHand s)
    (hm : g.place (.master h) = .frame m) (hat : p.At m) :
    s.anyOverlap p ordinal startAddr size = true ↔
      ∃ n, overlaps (g.segment h n) ordinal startAddr size = true := by
  have hentry : ∀ n : Fin 192, s.ste (p.stPtr.index n) = g.segment h n := by
    intro n
    rw [KernelInv.index_ste hat, hinv.ste_eq hm]
  simp only [anyOverlap, maxSegments, List.any_eq_true, List.mem_range]
  constructor
  · rintro ⟨i, hi, hover⟩
    exact ⟨⟨i, hi⟩, by rwa [← hentry ⟨i, hi⟩]⟩
  · rintro ⟨n, hover⟩
    exact ⟨n, n.isLt, by rwa [hentry n]⟩

/-- The calls that create a private segment: they refuse and change nothing but locks, or
record the segment and work on its pages. -/
theorem KernelInv.newSegment_inv
    {work : KernelSystem → KAddr → Nat → Except Halt KernelSystem}
    {R : Nat → UserSpace KAddr → PageTableL2Entry → Prop} (hinv : KernelInv g noHand noHand s)
    (hsound : g.Sound) (hm : g.place (.master h) = .frame m)
    (hclear : status = .ok → ∀ v, InRange h startAddr size v → (g.desc v).getInseg = false)
    (hstable : ∀ i us e us' e', Kept us e us' e' → R i us e → R i us' e')
    (hpage : ∀ i < size, ∀ g₁ s₁ f s₂, KernelInv g₁ noHand noHand s₁ →
      KernelInv.InMemory g₁ h (slotOf (pageAddr startAddr i)) m f true s₁ →
      (g₁.desc (pageOf h (pageAddr startAddr i))).getInseg = false →
      work s₁ ⟨f, cellOf (pageAddr startAddr i)⟩ i = .ok s₂ →
      ∃ g₂, KernelInv g₂ noHand noHand s₂ ∧
        Carried KTable.IsTable (fun _ => False) (· = pageOf h (pageAddr startAddr i)) g₁ s₁ g₂ s₂ ∧
        g₂.place (.table h (slotOf (pageAddr startAddr i))) = .frame f ∧
        SameObjects s₁ s₂ ∧ R i s₂.toUserSpace (g₂.desc (pageOf h (pageAddr startAddr i))))
    (hnew : s.newSegment h ordinal startAddr size work = .ok (status, s')) :
    ∃ g', KernelInv g' noHand noHand s' ∧ g'.place (.master h) = .frame m ∧ SameObjects s s' ∧
      ((status = .trap ∧ Carried (Released h) (fun _ => False)
          (fun _ => False) g s g' s' ∧ g' = g) ∨
        (status = .ok ∧ NewSegment g h ordinal startAddr size .occupied g' ∧
          Carried (Released h) (· = h) (InRange h startAddr size)
            g s g' s' ∧
          ∀ i < size, R i s'.toUserSpace (g'.desc (pageOf h (pageAddr startAddr i))))) := by
  obtain ⟨p, hp, _, hat⟩ := hinv.pcb_ok hm
  obtain ⟨hwork, hlock, hobjects⟩ := hinv.working hsound hm
  unfold newSegment at hnew
  simp only [hp, Outcome.ok_bind] at hnew
  split at hnew
  · cases hnew
    exact ⟨g, hinv, hm, .refl s, .inl ⟨rfl, .refl g s, rfl⟩⟩
  · rename_i hargs
    obtain ⟨p', hp', _, hat'⟩ := hwork.inv.pcb_ok hm
    simp only [hinv.masterTableLock_ok hm, Outcome.ok_bind, hp'] at hnew
    split at hnew
    · cases hnew
      obtain ⟨hinv', hunlock, hobjects'⟩ := hwork.unlocked
      exact ⟨g, hinv', hm, hobjects.trans hobjects',
        .inl ⟨rfl, hlock.carried.trans hunlock, rfl⟩⟩
    · rename_i hover
      obtain ⟨⟨entry, s₁⟩, hrecord, hrest⟩ := Outcome.bind_ok hnew
      obtain ⟨s₂, hfill, hret⟩ := Outcome.bind_ok hrest
      cases hret
      have hsize : size ≤ 16384 := by
        simp only [segmentArgs, Bool.not_eq_true, Bool.not_eq_false', Bool.and_eq_true,
          decide_eq_true_eq] at hargs
        omega
      obtain ⟨n, rfl, hfree, hwork₁, hcarried₁, hobjects₁⟩ := hwork.recordSegment_ok hrecord
      have hzero : ∀ v, InRange h startAddr size v →
          ((g.setSegment h n (Working.recorded (g.segment h n) ordinal size .occupied)).desc
            v).getInseg = false := by
        intro v hv
        rw [Layout.setSegment_desc]
        exact hclear rfl v hv
      obtain ⟨g', hwork₂, hcarried₂, hobjects₂, hR⟩ := hwork₁.fillSegment_ok
        (J := fun _ => SameObjects s₁) hsize (.refl s₁) (fun _ _ _ h₁ h₂ => h₂.trans h₁) hstable
        (fun i hi _ g₁ s₂ f s₃ _ hwork₂ hJ hcarried₂ hin hdo => by
        have hinseg := (hcarried₂.pages _ (fun hv => hv.2 rfl)).sameRights.inseg
        rw [hzero _ ⟨i, hi, rfl⟩] at hinseg
        obtain ⟨g₂, hinv₃, hcarried₃, hplace, hobjects₃, hR⟩ :=
          hpage i hi g₁ s₂ f s₃ hwork₂.inv hin hinseg hdo
        exact ⟨g₂, hinv₃, hcarried₃, hplace, hJ.trans hobjects₃, hR⟩) hfill
      obtain ⟨hinv', hunlock, hobjects'⟩ := hwork₂.unlocked
      refine ⟨g', hinv', hwork₂.master.1,
        hobjects.trans (hobjects₁.trans (hobjects₂.trans hobjects')),
        .inr ⟨rfl, ⟨hsize, fun n' => ?_, n, hfree, fun n' => ?_⟩, ?_, fun i hi => ?_⟩⟩
      · by_contra hn'
        exact hover ((hwork.inv.anyOverlap_eq hm hat').mpr ⟨n', by simpa using hn'⟩)
      · rw [← Layout.segment_setSegment]
        exact congrArg PageTableL2Entry.toSeg (hcarried₂.segs h n' id)
      · exact hlock.carried.trans ((hcarried₁.mono nofun (fun _ => id) nofun).trans
          ((hcarried₂.mono (fun _ => .inr) nofun (fun _ => id)).trans
            (hunlock.mono (fun _ => id) nofun nofun)))
      · exact hstable i _ _ _ _ (hunlock.pages _ id) (hR i hi)

/-- A page of a new private segment. -/
structure NewPage (accType : AccessType) (e : PageTableL2Entry) : Prop where
  inseg : e.getInseg = true
  shared : e.getShared = false
  access : e.getAccess = accType.code

theorem newPage_of_flags {accType : AccessType} {valid dirty tbc : Bool} {e : PageTableL2Entry}
    (hflags : e.flags = packFlags accType valid dirty true tbc false) : NewPage accType e := by
  have he : e = e.setFlags (packFlags accType valid dirty true tbc false) := by
    rw [← hflags]
    rfl
  rw [he]
  exact ⟨get_setFlags_pack .., get_setFlags_pack .., getAccess_pack ..⟩

theorem NewPage.keep {accType : AccessType} {e e' : PageTableL2Entry} (hnew : NewPage accType e)
    (hrights : SameRights e e') : NewPage accType e' :=
  ⟨hrights.inseg.trans hnew.inseg, hrights.shared.trans hnew.shared,
    hrights.access.trans hnew.access⟩

theorem newPage_stable {accType : AccessType} {content : Option Page} {us us' : UserSpace KAddr}
    {e e' : PageTableL2Entry} (hkept : Kept us e us' e')
    (hnew : NewPage accType e ∧ us.content e = content) :
    NewPage accType e' ∧ us'.content e' = content :=
  ⟨hnew.1.keep hkept.sameRights, hkept.2.trans hnew.2⟩

/-- What the calls that create a segment do to the kernel. -/
def SegmentCreated (g : Layout) (s : KernelSystem) (h ordinal startAddr size : Nat)
    (accType : AccessType) (content : Nat → Option Page) (g' : Layout) (s' : KernelSystem)
    (status : Status) : Prop :=
  (status = .trap ∧ Carried (Released h) (fun _ => False)
      (fun _ => False) g s g' s' ∧ g' = g) ∨
    (status = .ok ∧ NewSegment g h ordinal startAddr size .occupied g' ∧
      Carried (Released h) (· = h) (InRange h startAddr size) g s g' s' ∧
      ∀ i < size, NewPage accType (g'.desc (pageOf h (pageAddr startAddr i))) ∧
        s'.content (g'.desc (pageOf h (pageAddr startAddr i))) = content i)

/-- A created segment's pages have no contents yet. -/
theorem KernelInv.createSegment_inv {accType : AccessType} (hinv : KernelInv g noHand noHand s)
    (hsound : g.Sound) (hm : g.place (.master h) = .frame m)
    (hclear : status = .ok → ∀ v, InRange h startAddr size v → (g.desc v).getInseg = false)
    (hcreate : s.createSegment h startAddr size accType = .ok (status, s')) :
    ∃ g', KernelInv g' noHand noHand s' ∧ g'.place (.master h) = .frame m ∧ SameObjects s s' ∧
      SegmentCreated g s h (startAddr / 2 ^ 10 % 2 ^ 14) startAddr size accType (fun _ => none)
        g' s' status := by
  refine hinv.newSegment_inv (R := fun _ us e => NewPage accType e ∧ us.content e = none) hsound hm
    hclear (fun _ _ _ _ _ => newPage_stable) ?_ hcreate
  intro i hi g₁ s₁ f s₂ hinv₁ hin hinseg hmap
  cases hmap
  obtain ⟨huser, hbut⟩ := mapPage_inv (v := pageOf h (pageAddr startAddr i)) hinv₁.user
    (Layout.addr_of_frame hin.table _) hinseg accType
  obtain ⟨hinv₂, hcarried, hobjects⟩ := hinv₁.userStep hin.table huser hbut
  refine ⟨_, hinv₂, hcarried.mono nofun nofun (fun _ => id), hin.table, hobjects, ?_⟩
  rw [Layout.withDesc_desc, PageView.put_desc_self]
  refine ⟨newPage_of_flags rfl, content_none ?_ ?_⟩
  · simp [Resident, get_setFlags_pack]
  · simp [PagedOut, get_setFlags_pack]

/-- A loaded segment's pages contain what they were given. -/
theorem KernelInv.loadSegment_inv {accType : AccessType} {content : Nat → Page}
    (hinv : KernelInv g noHand noHand s) (hsound : g.Sound)
    (hm : g.place (.master h) = .frame m)
    (hclear : status = .ok → ∀ v, InRange h startAddr size v → (g.desc v).getInseg = false)
    (hload : s.loadSegment h startAddr size accType content = .ok (status, s')) :
    ∃ g', KernelInv g' noHand noHand s' ∧ g'.place (.master h) = .frame m ∧ SameObjects s s' ∧
      SegmentCreated g s h (startAddr / 2 ^ 10 % 2 ^ 10) startAddr size accType
        (fun i => some (content i)) g' s' status := by
  refine hinv.newSegment_inv
    (R := fun i us e => NewPage accType e ∧ us.content e = some (content i)) hsound hm hclear
    (fun _ _ _ _ _ => newPage_stable) ?_ hload
  intro i hi g₁ s₁ f s₂ hinv₁ hin hinseg hpage
  obtain ⟨us', hus, hs₂⟩ := Outcome.bind_ok hpage
  cases hs₂
  obtain ⟨w', huser, hbut, _, hflags, hcontent⟩ := loadPage_inv
    (v := pageOf h (pageAddr startAddr i)) hinv₁.user (Layout.addr_of_frame hin.table _) hinseg hus
  obtain ⟨hinv₂, hcarried, hobjects⟩ := hinv₁.userStep hin.table huser hbut
  exact ⟨_, hinv₂, hcarried.mono nofun nofun (fun _ => id), hin.table, hobjects,
    newPage_of_flags hflags, hcontent⟩

end Create

end VirtualMemory

import VirtualMemory.KernelPaging

/-!
# Steps of the kernel's operations

What the operations on processes are made of: a frame in hand becomes a page table, a page
table comes back from the disk, a new process gets its master table, frames are locked
and unlocked, a segment entry is written. Each step says what it does to the layout, and
leaves the rest to `Carried`.
-/

namespace VirtualMemory

open Function UserSpace KernelSystem

namespace KernelInv

variable {g : Layout} {hand hand' handC handC' : Nat → Prop} {s s' : KernelSystem}
  {h : Nat} {slot : Fin 64} {k m c f : Nat} {flags : BitVec 8}

/-- What is in a kernel frame's table entry is the business of its holder. -/
theorem image_other (hinv : KernelInv g hand handC s) {t : KTable} {us : UserSpace KAddr}
    (hmem : ∀ x i, g.place t = .frame x → us.mem ⟨x, i⟩ = s.mem ⟨x, i⟩)
    (hdisk : ∀ x, g.place t = .cluster x → us.disk x = s.disk x) :
    imageAt us (g.place t) = g.cells t := by
  rw [← hinv.image t]
  cases hpl : g.place t with
  | frame x =>
      funext i
      exact hmem x i hpl
  | cluster x => exact hdisk x hpl
  | gone | lost => rfl

/-- The state once page table `slot` of the process whose master table is in frame `m` was
put into frame `f`. -/
structure PlacedTable (g : Layout) (h : Nat) (slot : Fin 64) (m f : Nat) (flags : BitVec 8)
    (s s' : KernelSystem) : Prop where
  state : s' = { s with
    toUserSpace := { s.toUserSpace with mem := s'.mem, dvt := s'.dvt }
    ksFt := update s.ksFt f ⟨flags, .ksPageTable, some (.ptl1e ⟨m, slotCell slot⟩)⟩ }
  mem : ∀ a, s'.mem a =
    if a = ⟨m, slotCell slot⟩ then ((s.ptl1 ⟨m, slotCell slot⟩).placedIn f).toCell
    else if a.frame = f then g.cells (.table h slot) a.cell else s.mem a

/-- A page table that was not in memory is in frame `f`, which was in hand. -/
theorem placeTable (hinv : KernelInv g (· = f) handC s) (hm : g.place (.master h) = .frame m)
    (hnot : ∀ x, g.place (.table h slot) ≠ .frame x)
    (placed : PlacedTable g h slot m f flags s s')
    (hclusters : Ledger.Exact (· < s.diskSize) (s'.dvt · = true)
      (clusterHolds g.desc s.ot (clusterOf (g.move h slot (.frame f)
        ((s.ptl1 ⟨m, slotCell slot⟩).placedIn f)) handC))) :
    KernelInv (g.move h slot (.frame f) ((s.ptl1 ⟨m, slotCell slot⟩).placedIn f)) noHand handC
      s' := by
  have hhas : s.HasFrame f := hinv.frames.holds_dom (r := .hand f) ⟨rfl, rfl⟩
  have hne : ∀ t x, g.place t = .frame x → x ≠ f := fun t x ht => hinv.frame_ne_hand ht rfl
  have hmf : m ≠ f := hne _ m hm
  have hft : s'.ksFt = update s.ksFt f
      ⟨flags, .ksPageTable, some (.ptl1e ⟨m, slotCell slot⟩)⟩ := by rw [placed.state]
  have hdisk : s'.disk = s.disk := by rw [placed.state]
  have hempty : s'.ksEmpty = s.ksEmpty := by rw [placed.state]
  refine hinv.move hm ?_ hclusters (fun _ _ _ => by rw [hdisk]) (by rw [hempty]; exact hinv.nodup)
    ?_ ?_
  · refine ⟨l1Agrees_placedIn _ (hinv.frame_lt hhas), ?_, ?_, ?_, ?_, ?_, ?_, ?_,
      by rw [placed.state], by rw [placed.state], by rw [placed.state], by rw [placed.state]⟩
    · intro i hr
      obtain ⟨x, hx⟩ := hinv.resident_frame hr
      exact hnot x hx
    · funext i
      simp [imageAt, placed.mem, hmf.symm]
    · intro i
      by_cases hi : i = slotCell slot
      · simp [placed.mem, hi]
      · simp [placed.mem, hi, hmf, hinv.mem_eq hm]
    · intro t ht htm
      rw [hinv.image t]
      refine hinv.image_other (fun x i hx => ?_) (fun _ _ => by rw [hdisk])
      have hxm : x ≠ m := by
        rintro rfl
        exact htm (hinv.frame_inj hx hm)
      simp [placed.mem, hxm, hne t x hx]
    · intro t x ht hx
      rw [hft, update_of_ne (hne t x hx)]
    · rintro x ⟨⟩
      rw [hft, update_self]
      exact ⟨rfl, rfl⟩
    · rw [placed.state]
  · rw [hempty]
    exact hinv.frames_settle rfl (fun x => by simp [noHand]) hnot (by simp)
      (fun u hu => Layout.move_place_of_ne hu)
  · intro x hx
    by_cases hxf : x = f
    · exact hxf ▸ hhas
    · rw [hft, update_of_ne hxf] at hx
      exact hinv.typed x hx

/-- What putting a page table into a frame leaves alone. -/
theorem carried_placed (hinv : KernelInv g (· = f) handC s)
    (hm : g.place (.master h) = .frame m) (hnot : ∀ x, g.place (.table h slot) ≠ .frame x)
    (placed : PlacedTable g h slot m f flags s s') :
    OnlyPaged g s (g.move h slot (.frame f) ((s.ptl1 ⟨m, slotCell slot⟩).placedIn f)) s' := by
  have hft : s'.ksFt = update s.ksFt f
      ⟨flags, .ksPageTable, some (.ptl1e ⟨m, slotCell slot⟩)⟩ := by rw [placed.state]
  have hne : ∀ t x, g.place t = .frame x → x ≠ f := fun t x ht => hinv.frame_ne_hand ht rfl
  have hsame : ∀ t x, t ≠ .table h slot → g.place t = .frame x → s'.ksFt x = s.ksFt x := by
    intro t x _ hx
    rw [hft, update_of_ne (hne t x hx)]
  have hlocked : ∀ u x, LockedIn g s u x → LockedIn
      (g.move h slot (.frame f) ((s.ptl1 ⟨m, slotCell slot⟩).placedIn f)) s' u x := by
    rintro u x ⟨hx, hlocked⟩
    have hu : u ≠ .table h slot := by
      rintro rfl
      exact hnot x hx
    exact ⟨by rwa [Layout.move_place_of_ne hu], by rwa [hsame u x hu hx]⟩
  refine ⟨fun v _ => ?_, ?_, ?_, ?_, ?_, ?_⟩
  · rw [Layout.move_desc]
    refine ⟨.inl rfl, ?_⟩
    rw [placed.state]
    rfl
  · intro t x _ hpin
    cases t with
    | master h' => exact hlocked _ x hpin
    | table h' slot' =>
        obtain ⟨hx, m', hm'⟩ := hpin
        exact ⟨hlocked _ x hx, m', hlocked _ m' hm'⟩
  · intro hg h' slot' m' hm' hlost
    rw [Layout.move_place_master] at hm'
    by_cases ht : KTable.table h' slot' = .table h slot
    · rw [ht, Layout.move_place_self] at hlost
      cases hlost
    · rw [Layout.move_place_of_ne ht] at hlost
      exact hg h' slot' m' hm' hlost
  · intro h' n _
    by_cases hh : h' = h
    · subst h'
      rw [Layout.move_cells_self, update_of_ne (slotCell_ne_segCell slot n).symm]
    · rw [Layout.move_cells_master_of_ne hh]
  · intro h' _ hnone
    rw [Layout.NoMaster, Layout.move_place_master] at hnone
    refine ⟨hnone, fun slot' => Layout.move_place_of_ne ?_⟩
    rintro ⟨⟩
    simp [hm] at hnone
  · intro h' _ haway
    refine ⟨fun m' hm' => haway m' ?_, fun slot' => Layout.move_place_of_ne ?_⟩
    · rwa [Layout.move_place_master] at hm'
    · rintro ⟨⟩
      exact haway m hm

/-- Where the tables are, apart from those that were `placed`, once room was made for them. -/
structure MadeRoom (placed : KTable → Prop) (g : Layout) (s : KernelSystem) (g' : Layout) :
    Prop where
  stay : ∀ t, ¬ placed t → ¬ MakesRoom g s t → g'.place t = g.place t
  gone : ∀ t, ¬ placed t → MakesRoom g s t → ∀ f, g'.place t ≠ .frame f
  stored : ∀ t, ¬ placed t → ∀ c, g.place t = .cluster c → g'.place t = .cluster c

/-- A page table was placed into the room. -/
theorem MadeRoom.move {e : PageTableL1Entry} {pl : Place} {g₁ : Layout}
    (hroom : MadeRoom (fun _ => False) g s g₁) :
    MadeRoom (· = .table h slot) g s (g₁.move h slot pl e) where
  stay t ht hnot := (Layout.move_place_of_ne ht).trans (hroom.stay t id hnot)
  gone t ht hout f := by
    rw [Layout.move_place_of_ne ht]
    exact hroom.gone t id hout f
  stored t ht c hc := (Layout.move_place_of_ne ht).trans (hroom.stored t id c hc)

/-- A locked table makes no room. -/
theorem locked_stays (hinv : KernelInv g noHand noHand s) (hm : LockedIn g s (.master h) m)
    (htake : s.ksTakePage = .ok (f, s')) : ¬ MakesRoom g s (.master h) := by
  obtain ⟨_, _, _, hfree, _⟩ := hinv.ksTakePage_inv htake
  exact fun hroom => hfree _ m hroom hm

theorem takeFor (hinv : KernelInv g noHand noHand s) (hm : g.place (.master h) = .frame m)
    (hstays : ¬ MakesRoom g s (.master h)) (hnot : ∀ x, g.place (.table h slot) ≠ .frame x)
    (htake : s.ksTakePage = .ok (f, s')) :
    ∃ g', KernelInv g' (· = f) noHand s' ∧
      OnlyPaged g s g' s' ∧ SameObjects s s' ∧
      g'.place (.master h) = .frame m ∧ g'.place (.table h slot) = g.place (.table h slot) ∧
      MadeRoom (fun _ => False) g s g' ∧
      ∀ v : LPage, ¬ MakesRoom g s (.table v.proc v.slot) → g'.desc v = g.desc v := by
  obtain ⟨g', hinv', hevicted, hfree, hothers⟩ := hinv.ksTakePage_inv htake
  refine ⟨g', hinv', .of_evicted hevicted hfree, hevicted.objects,
    (hevicted.place _ hstays).trans hm, hevicted.place _ ?_,
    ⟨fun t _ => hevicted.place t, fun t _ => hevicted.gone t, fun t _ => hevicted.stored t⟩,
    hothers⟩
  intro hout
  obtain ⟨x, _, hx, _⟩ | hmaster := hevicted.was h slot hout
  · exact hnot x hx
  · exact hstays hmaster

/-- The page table of a process in memory, with its lock bit. -/
structure InMemory (g : Layout) (h : Nat) (slot : Fin 64) (m f : Nat) (lock : Bool)
    (s : KernelSystem) : Prop where
  master : LockedIn g s (.master h) m
  table : g.place (.table h slot) = .frame f
  locked : (s.ksFt f).getLocked = lock

theorem placed_objects (placed : PlacedTable g h slot m f flags s s') : SameObjects s s' := by
  rw [placed.state]
  exact ⟨rfl, rfl, rfl, rfl, fun _ => rfl, rfl, rfl, rfl, rfl, rfl, rfl, rfl⟩

theorem placed_locked (placed : PlacedTable g h slot m f flags s s') :
    (s'.ksFt f).getLocked = bitGet flags 5 := by
  rw [placed.state]
  simp [FrameTableEntry.getLocked]

/-- A page table comes back from the disk, for a master table that does not make room. -/
theorem fetchPageTable_brought {lock : Bool}
    (hinv : KernelInv g noHand noHand s) (hm : g.place (.master h) = .frame m)
    (hstays : ∀ f s₁, s.ksTakePage = .ok (f, s₁) → ¬ MakesRoom g s (.master h))
    (hc : g.place (.table h slot) = .cluster c)
    (hfetch : s.fetchPageTable ⟨m, slotCell slot⟩ lock = .ok s') :
    ∃ g' f, KernelInv g' noHand noHand s' ∧ OnlyPaged g s g' s' ∧
      SameObjects s s' ∧ g'.place (.master h) = .frame m ∧
      g'.place (.table h slot) = .frame f ∧ (s'.ksFt f).getLocked = lock ∧
      MadeRoom (· = .table h slot) g s g' ∧ s'.dvt c = true ∧
      ∀ v : LPage, ¬ MakesRoom g s (.table v.proc v.slot) → g'.desc v = g.desc v := by
  have hblock : (s.ptl1 ⟨m, slotCell slot⟩).block = c := by
    have hagree := hinv.agrees hm slot
    rw [hc] at hagree
    exact hagree.2
  have hnull : c ≠ nullCluster := by
    have hlt := hinv.cluster_lt (r := .table _) hc
    unfold maxClusters at hlt
    unfold nullCluster
    omega
  unfold fetchPageTable ksRequestPage ksAcquirePage at hfetch
  rw [hblock] at hfetch
  obtain ⟨⟨f, s₂⟩, hrequest, hset⟩ := Outcome.bind_ok hfetch
  obtain ⟨⟨f', s₃⟩, hacquire, hget⟩ := Outcome.bind_ok hrequest
  obtain ⟨⟨f'', s₁⟩, htake, hft⟩ := Outcome.bind_ok hacquire
  cases hft
  simp only [if_neg hnull] at hget
  cases hget
  obtain ⟨g₁, hinv₁, hcarried₁, hobjects₁, hm₁, hplace₁, hroom₁, hothers₁⟩ :=
    hinv.takeFor hm (hstays _ _ htake) (fun x hx => Place.noConfusion (hc.symm.trans hx)) htake
  rw [hc] at hplace₁
  have hmf : m ≠ f := hinv₁.frame_ne_hand hm₁ rfl
  have hplaced : PlacedTable g₁ h slot m f
      (if lock then FrameTableEntry.ftLocked else FrameTableEntry.ftNone) s₁ s' := by
    rw [← Except.ok.inj hset]
    refine ⟨rfl, fun a => ?_⟩
    by_cases ha : a = ⟨m, slotCell slot⟩
    · simp [setPtl1, setPte, ptl1, KernelSystem.withUser, dvtMark, setKrnlPage, ksFtUpdate,
        PageTableL1Entry.placedIn, ha, hmf]
    · by_cases haf : a.frame = f
      · simp [setPtl1, setPte, KernelSystem.withUser, dvtMark, setKrnlPage, ksFtUpdate, ha, haf,
          hinv₁.disk_eq hplace₁]
      · simp [setPtl1, setPte, KernelSystem.withUser, dvtMark, setKrnlPage, ksFtUpdate, ha, haf]
  have hdvt : s'.dvt = update s₁.dvt c true := by
    rw [← Except.ok.inj hset]
    rfl
  have hbit : bitGet (if lock then FrameTableEntry.ftLocked else FrameTableEntry.ftNone) 5 =
      lock := by
    cases lock <;> rfl
  refine ⟨_, f, hinv₁.placeTable hm₁ (by simp [hplace₁]) hplaced ?_,
    hcarried₁.trans (hinv₁.carried_placed hm₁ (by simp [hplace₁]) hplaced),
    hobjects₁.trans (placed_objects hplaced), by rw [Layout.move_place_master, hm₁], by simp,
    (placed_locked hplaced).trans hbit, hroom₁.move, by rw [hdvt, update_self], fun v hv => ?_⟩
  · rw [hdvt]
    exact hinv₁.clusters_give hplace₁ (by simp) (fun u hu => Layout.move_place_of_ne hu)
  · rw [Layout.move_desc, hothers₁ v hv]

/-- A page table comes back from the disk. -/
theorem fetchPageTable_inv {lock : Bool}
    (hinv : KernelInv g noHand noHand s) (hm : LockedIn g s (.master h) m)
    (hc : g.place (.table h slot) = .cluster c)
    (hfetch : s.fetchPageTable ⟨m, slotCell slot⟩ lock = .ok s') :
    ∃ g' f, KernelInv g' noHand noHand s' ∧ OnlyPaged g s g' s' ∧
      SameObjects s s' ∧ InMemory g' h slot m f lock s' ∧
      MadeRoom (· = .table h slot) g s g' := by
  obtain ⟨g', f, hinv', hcarried, hobjects, _, hf, hlocked, hroom, _⟩ :=
    hinv.fetchPageTable_brought hm.1 (fun _ _ htake => hinv.locked_stays hm htake) hc hfetch
  exact ⟨g', f, hinv', hcarried, hobjects,
    ⟨hcarried.stay (.master h) m id hm, hf, hlocked⟩, hroom⟩

/-- A new page table, locked and blank. -/
theorem newPageTable_inv {s₁ : KernelSystem}
    (hinv : KernelInv g noHand noHand s) (hm : LockedIn g s (.master h) m)
    (hgone : g.place (.table h slot) = .gone)
    (hrequest : s.ksRequestPage .ksPageTable (.ptl1e ⟨m, slotCell slot⟩) nullCluster true =
      .ok (f, s₁))
    (hs' : s' = (s₁.setPtl1 ⟨m, slotCell slot⟩
      ((s₁.ptl1 ⟨m, slotCell slot⟩).placedIn f)).initPageTable f) :
    ∃ g', KernelInv g' noHand noHand s' ∧ OnlyPaged g s g' s' ∧
      SameObjects s s' ∧ InMemory g' h slot m f true s' := by
  unfold ksRequestPage ksAcquirePage at hrequest
  obtain ⟨⟨f', s₂⟩, hacquire, hget⟩ := Outcome.bind_ok hrequest
  obtain ⟨⟨f'', s₀⟩, htake, hft⟩ := Outcome.bind_ok hacquire
  cases hft
  simp only [if_true] at hget
  cases hget
  obtain ⟨g₁, hinv₁, hcarried₁, hobjects₁, hm₁, hplace₁, _⟩ :=
    hinv.takeFor hm.1 (hinv.locked_stays hm htake)
      (fun x hx => Place.noConfusion (hgone.symm.trans hx)) htake
  rw [hgone] at hplace₁
  have hmf : m ≠ f := hinv₁.frame_ne_hand hm₁ rfl
  have hplaced : PlacedTable g₁ h slot m f FrameTableEntry.ftLocked s₀ s' := by
    rw [hs']
    refine ⟨rfl, fun a => ?_⟩
    by_cases ha : a = ⟨m, slotCell slot⟩
    · simp [setPtl1, setPte, ptl1, KernelSystem.withUser, initPageTable, setKrnlPage, ksFtUpdate,
        ha, hmf]
    · by_cases haf : a.frame = f
      · simp [setPtl1, setPte, KernelSystem.withUser, initPageTable, setKrnlPage, ksFtUpdate, ha,
          haf, hinv₁.cells_blank (.inl hplace₁), blankPage]
      · simp [setPtl1, setPte, KernelSystem.withUser, initPageTable, setKrnlPage, ksFtUpdate, ha,
          haf]
  have hdvt : s'.dvt = s₀.dvt := by
    rw [hs']
    rfl
  have hcarried := hcarried₁.trans (hinv₁.carried_placed hm₁ (by simp [hplace₁]) hplaced)
  refine ⟨_, hinv₁.placeTable hm₁ (by simp [hplace₁]) hplaced ?_, hcarried,
    hobjects₁.trans (placed_objects hplaced),
    ⟨hcarried.stay (.master h) m id hm, by simp, placed_locked hplaced⟩⟩
  rw [hdvt]
  refine hinv₁.clusters_same fun u x => ?_
  by_cases hu : u = .table h slot
  · subst u
    simp [hplace₁]
  · rw [Layout.move_place_of_ne hu]

/-- The flags in the frame table do not matter to the invariant. -/
theorem reflag (hinv : KernelInv g hand handC s) {f : Nat} {e : FrameTableEntry KsOwner}
    (htype : e.type = (s.ksFt f).type) (howner : e.owner = (s.ksFt f).owner) :
    KernelInv g hand handC { s with ksFt := update s.ksFt f e } := by
  have hsame : ∀ x, (update s.ksFt f e x).type = (s.ksFt x).type ∧
      (update s.ksFt f e x).owner = (s.ksFt x).owner := by
    intro x
    by_cases hx : x = f
    · subst x
      simp [htype, howner]
    · simp [hx]
  refine ⟨hinv.user, hinv.krnl_le, hinv.nodup, hinv.frames, ?_, hinv.image, hinv.entries, ?_, ?_,
    hinv.stored, hinv.newborn, hinv.live, hinv.fresh⟩
  · intro x hx
    simp only [(hsame x).1] at hx
    exact hinv.typed x hx
  · intro h' slot' x hx
    simp only [(hsame x).1, (hsame x).2]
    exact hinv.tables h' slot' x hx
  · intro h' x hx
    simp only [(hsame x).1, (hsame x).2]
    exact hinv.masters h' x hx

theorem ksLockPage_inv (hinv : KernelInv g hand handC s) (f : Nat) :
    KernelInv g hand handC (s.ksLockPage f) ∧ OnlyPaged g s g (s.ksLockPage f) ∧
      SameObjects s (s.ksLockPage f) := by
  refine ⟨hinv.reflag rfl rfl, ⟨fun _ _ => .refl _ _, ?_, id, fun _ _ _ => rfl,
      fun _ _ hnone => ⟨hnone, fun _ => rfl⟩, fun _ _ haway => ⟨haway, fun _ => rfl⟩⟩,
    ⟨rfl, rfl, rfl, rfl, fun _ => rfl, rfl, rfl, rfl, rfl, rfl, rfl, rfl⟩⟩
  have hlocked : ∀ t x, LockedIn g s t x → LockedIn g (s.ksLockPage f) t x := by
    rintro t x ⟨hx, hl⟩
    refine ⟨hx, ?_⟩
    by_cases hxf : x = f
    · simp [ksLockPage, hxf]
    · simpa [ksLockPage, hxf] using hl
  intro t x _ hpin
  cases t with
  | master h' => exact hlocked _ x hpin
  | table h' slot' =>
      obtain ⟨hx, m', hm'⟩ := hpin
      exact ⟨hlocked _ x hx, m', hlocked _ m' hm'⟩

/-- New flags for the frame of a table: only this table, or with a master table the tables
of its process, can be pinned no longer. -/
theorem reflag_inv {t : KTable} {e : FrameTableEntry KsOwner} (hinv : KernelInv g hand handC s)
    (ht : g.place t = .frame f) (htype : e.type = (s.ksFt f).type)
    (howner : e.owner = (s.ksFt f).owner) :
    KernelInv g hand handC { s with ksFt := update s.ksFt f e } ∧
      Carried (fun u => u = t ∨ u.IsTable) (fun _ => False) (fun _ => False) g s g
        { s with ksFt := update s.ksFt f e } ∧
      SameObjects s { s with ksFt := update s.ksFt f e } := by
  refine ⟨hinv.reflag htype howner, ⟨fun _ _ => .refl _ _, ?_, id, fun _ _ _ => rfl,
      fun _ _ hnone => ⟨hnone, fun _ => rfl⟩, fun _ _ haway => ⟨haway, fun _ => rfl⟩⟩,
    ⟨rfl, rfl, rfl, rfl, fun _ => rfl, rfl, rfl, rfl, rfl, rfl, rfl, rfl⟩⟩
  intro u x hu hpin
  cases u with
  | table h' slot' => exact absurd (.inr ⟨h', slot', rfl⟩) hu
  | master h' =>
      obtain ⟨hx, hl⟩ := hpin
      have hxf : x ≠ f := by
        rintro rfl
        exact hu (.inl (hinv.frame_inj hx ht))
      exact ⟨hx, by simpa [hxf] using hl⟩

theorem pageUnlock_inv {t : KTable} (hinv : KernelInv g hand handC s)
    (ht : g.place t = .frame f) :
    KernelInv g hand handC (s.pageUnlock f) ∧
      Carried (fun u => u = t ∨ u.IsTable) (fun _ => False) (fun _ => False) g s g
        (s.pageUnlock f) ∧
      SameObjects s (s.pageUnlock f) := by
  unfold pageUnlock
  split
  · exact ⟨hinv, .refl g s, .refl s⟩
  · exact hinv.reflag_inv ht rfl rfl

/-- What an operation on one page in memory does to the kernel. -/
theorem userStep {w' : PageView LPage KAddr} {us' : UserSpace KAddr} {v : LPage}
    (hinv : KernelInv g hand handC s)
    (hv : g.place (.table v.proc v.slot) = .frame f)
    (huser : UserInv w' noHand (clusterOf g handC) us')
    (hbut : PagedBut (clusterOf g handC) (· = v) g.view s.toUserSpace w' us') :
    KernelInv (g.withDesc w'.desc) hand handC (s.withUser us') ∧
      Carried (fun _ => False) (fun _ => False) (· = v) g s (g.withDesc w'.desc) (s.withUser us') ∧
      SameObjects s (s.withUser us') := by
  refine ⟨hinv.paged huser hbut ?_, ⟨hbut.keptBut, ?_, id, fun _ _ _ => rfl,
      fun _ _ hnone => ⟨hnone, fun _ => rfl⟩, fun _ _ haway => ⟨haway, fun _ => rfl⟩⟩,
    ⟨rfl, rfl, hbut.userspcSize, hbut.diskSize, fun _ => rfl, rfl, rfl, rfl, rfl, rfl, rfl, rfl⟩⟩
  · rintro u rfl
    rw [Layout.addr_of_frame hv u.cell]
    exact Option.some_ne_none _
  · intro t x _ hpin
    cases t with
    | master h' => exact hpin
    | table h' slot' => exact hpin

/-- `accessPtl1` on a process whose master table is resident. -/
theorem accessPtl1_eq (hinv : KernelInv g hand handC s) (hm : g.place (.master h) = .frame m)
    (addr : Nat) : s.accessPtl1 h addr =
      .ok (some ⟨m, slotCell (slotOf addr)⟩) := by
  obtain ⟨p, hp, _, hat⟩ := hinv.pcb_ok hm
  simp only [accessPtl1, hp, Outcome.ok_bind, hat.valid, if_true, hat.ptl1Ptr]
  rw [← index_slotCell]
  rfl

/-- `accessPtl2` on a page table in memory. -/
theorem accessPtl2_eq (hinv : KernelInv g hand handC s) (hm : g.place (.master h) = .frame m)
    (hf : g.place (.table h slot) = .frame f) (addr : Nat) :
    s.accessPtl2 addr ⟨m, slotCell slot⟩ = .ok ⟨f, cellOf addr⟩ := by
  have hagree := hinv.agrees hm slot
  rw [hf] at hagree
  have hindex : (KAddr.page f).index (ptl2Slot addr) = ⟨f, cellOf addr⟩ :=
    KAddr.index_page f (cellOf addr).isLt
  unfold accessPtl2
  rw [if_neg (by rw [hagree.1]; decide), if_neg (by rw [hagree.1]; decide), hagree.2, hindex]

/-- A page table in memory is locked where it is. -/
theorem pageTableLock_present {addr : Nat} (hinv : KernelInv g hand handC s)
    (hm : g.place (.master h) = .frame m) (hf : g.place (.table h (slotOf addr)) = .frame f) :
    s.pageTableLock h addr = .ok (f, s.ksLockPage f) := by
  obtain ⟨p, hp, _, hat⟩ := hinv.pcb_ok hm
  have hindex : p.ptl1Ptr.index (ptl1Slot addr) = ⟨m, slotCell (slotOf addr)⟩ := by
    rw [hat.ptl1Ptr, ← index_slotCell]
    rfl
  have hagree := hinv.agrees hm (slotOf addr)
  rw [hf] at hagree
  unfold pageTableLock
  simp only [hp, Outcome.ok_bind, hindex]
  rw [if_neg (by rw [hagree.1]; decide), if_pos hagree.1, hagree.2]

/-- A page table that gets locked is in memory, or is brought in. -/
theorem pageTableLock_cases {addr : Nat} (hinv : KernelInv g hand handC s) (hsound : g.Sound)
    (hm : g.place (.master h) = .frame m) (hlock : s.pageTableLock h addr = .ok (f, s')) :
    (g.place (.table h (slotOf addr)) = .frame f ∧ s' = s.ksLockPage f) ∨
      ∃ c, g.place (.table h (slotOf addr)) = .cluster c ∧
        s.fetchPageTable ⟨m, slotCell (slotOf addr)⟩ true = .ok s' ∧
        (s'.ptl1 ⟨m, slotCell (slotOf addr)⟩).block = f := by
  obtain ⟨p, hp, _, hat⟩ := hinv.pcb_ok hm
  have hindex : p.ptl1Ptr.index (ptl1Slot addr) = ⟨m, slotCell (slotOf addr)⟩ := by
    rw [hat.ptl1Ptr, ← index_slotCell]
    rfl
  have hagree := hinv.agrees hm (slotOf addr)
  unfold pageTableLock at hlock
  simp only [hp, Outcome.ok_bind, hindex] at hlock
  cases hpl : g.place (.table h (slotOf addr)) with
  | frame k =>
      rw [hpl] at hagree
      rw [if_neg (by rw [hagree.1]; decide), if_pos hagree.1, hagree.2] at hlock
      cases hlock
      exact .inl ⟨rfl, rfl⟩
  | cluster c =>
      rw [hpl] at hagree
      rw [if_pos hagree.1] at hlock
      obtain ⟨s₁, hfetch, hret⟩ := Outcome.bind_ok hlock
      cases hret
      exact .inr ⟨c, rfl, hfetch, rfl⟩
  | lost => exact absurd hpl (hsound h _ m hm)
  | gone =>
      rw [hpl] at hagree
      have hunused : (s.ptl1 ⟨m, slotCell (slotOf addr)⟩).status = PageTableL1Entry.statusUnused :=
        hagree
      rw [if_neg (by rw [hunused]; decide), if_neg (by rw [hunused]; decide)] at hlock
      cases hlock

/-- A page table that there is gets locked, wherever it was. -/
theorem pageTableLock_inv {addr : Nat}
    (hinv : KernelInv g noHand noHand s) (hsound : g.Sound) (hm : LockedIn g s (.master h) m)
    (hlock : s.pageTableLock h addr = .ok (f, s')) :
    ∃ g', KernelInv g' noHand noHand s' ∧ OnlyPaged g s g' s' ∧
      SameObjects s s' ∧ InMemory g' h (slotOf addr) m f true s' := by
  obtain ⟨hf, rfl⟩ | ⟨c, hc, hfetch, rfl⟩ := hinv.pageTableLock_cases hsound hm.1 hlock
  · obtain ⟨hinv', hcarried, hobjects⟩ := hinv.ksLockPage_inv f
    exact ⟨g, hinv', hcarried, hobjects, hcarried.stay (.master h) m id hm, hf,
      by simp [ksLockPage]⟩
  · obtain ⟨g', f, hinv', hcarried, hobjects, hin, _⟩ := hinv.fetchPageTable_inv hm hc hfetch
    have hagree := hinv'.agrees hin.master.1 (slotOf addr)
    rw [hin.table] at hagree
    rw [hagree.2]
    exact ⟨g', hinv', hcarried, hobjects, hin⟩

/-- The page table of a page of a new segment gets locked, and is made if there is none. -/
theorem lockPtl2_inv {addr : Nat}
    (hinv : KernelInv g noHand noHand s) (hsound : g.Sound) (hm : LockedIn g s (.master h) m)
    (hlock : s.lockPtl2 h addr ⟨m, slotCell (slotOf addr)⟩ = .ok (f, s')) :
    ∃ g', KernelInv g' noHand noHand s' ∧ OnlyPaged g s g' s' ∧
      SameObjects s s' ∧ InMemory g' h (slotOf addr) m f true s' := by
  unfold lockPtl2 at hlock
  split at hlock
  · rename_i hunused
    obtain ⟨⟨f', s₁⟩, hrequest, hret⟩ := Outcome.bind_ok hlock
    cases hret
    have hgone : g.place (.table h (slotOf addr)) = .gone := by
      have hagree := hinv.agrees hm.1 (slotOf addr)
      cases hpl : g.place (.table h (slotOf addr)) with
      | gone => rfl
      | lost => exact absurd hpl (hsound h _ m hm.1)
      | frame k =>
          rw [hpl] at hagree
          rw [hagree.1] at hunused
          cases hunused
      | cluster c =>
          rw [hpl] at hagree
          rw [hagree.1] at hunused
          cases hunused
    exact hinv.newPageTable_inv hm hgone hrequest rfl
  · exact hinv.pageTableLock_inv hsound hm hlock

/-- One page of a new segment, up to the work on its descriptor: its page table is in
memory and locked. -/
theorem segmentPage_ok {startAddr i : Nat}
    {work : KernelSystem → KAddr → Nat → Except Halt KernelSystem}
    (hinv : KernelInv g noHand noHand s) (hsound : g.Sound) (hm : LockedIn g s (.master h) m)
    (hpage : segmentPage h startAddr work s i = .ok s') :
    ∃ g₁ s₁ f s₂, KernelInv g₁ noHand noHand s₁ ∧
      OnlyPaged g s g₁ s₁ ∧ SameObjects s s₁ ∧
      InMemory g₁ h (slotOf (pageAddr startAddr i)) m f true s₁ ∧
      work s₁ ⟨f, cellOf (pageAddr startAddr i)⟩ i = .ok s₂ ∧ s' = s₂.pageUnlock f := by
  unfold segmentPage at hpage
  simp only [hinv.accessPtl1_eq hm.1, deref, Outcome.ok_bind] at hpage
  obtain ⟨⟨f, s₁⟩, hlock, hrest⟩ := Outcome.bind_ok hpage
  obtain ⟨g₁, hinv₁, hcarried, hobjects, hin⟩ := hinv.lockPtl2_inv hsound hm hlock
  simp only [hinv₁.accessPtl2_eq hin.master.1 hin.table, derefPtl2, Outcome.ok_bind] at hrest
  obtain ⟨s₂, hwork, hret⟩ := Outcome.bind_ok hrest
  exact ⟨g₁, s₁, f, s₂, hinv₁, hcarried, hobjects, hin, hwork, (Except.ok.inj hret).symm⟩

end KernelInv

end VirtualMemory

import VirtualMemory.MemoryRuns

/-!
# One memory, seen through every mapping

The descriptors of a mapping name the segment and the page of the segment. They stay as they
are while pages and page tables come and go, so that two mappings of one segment lead to the
same page, and what is stored through one of them is read through the other.
-/

namespace VirtualMemory

open Function UserSpace KernelSystem PageTableL2Entry FlatMemory

namespace Registry

variable {r r' : Registry} {op : KernelOp} {name : String} {n dummy : Nat}

/-- The index and the dummy of a name. -/
def Named (r : Registry) (name : String) (n dummy : Nat) : Prop :=
  ∃ b, r.ssegMap.lookup name = some b ∧ r.block b = some (dummy, n)

/-- The vector is no longer than the count of segments that were made, which has a limit, and
their dummies are processes that were made. -/
structure Bounded (r : Registry) : Prop where
  names : r.ssegMap.length ≤ r.ssegCount
  size : r.ssegVec.size ≤ max 1 r.ssegCount
  count : r.ssegCount ≤ maxSharedSegments
  dummies : ∀ b dummy n, r.block b = some (dummy, n) → dummy < r.nextPcb

theorem bounded_empty : Registry.empty.Bounded :=
  ⟨Nat.le_refl 0, Nat.le_refl 1, Nat.zero_le _, fun _ _ _ hb => by cases hb⟩

theorem Bounded.index_lt (hr : r.Bounded) (hlive : r.ssegVec.datum n = some dummy) : n < 256 := by
  have hn : n < r.ssegVec.size := by
    by_contra hge
    rw [ConsVec.datum_of_le (Nat.le_of_not_lt hge)] at hlive
    cases hlive
  have hsize := hr.size
  have hcount := hr.count
  unfold maxSharedSegments at hcount
  omega

/-- The dummy of a new segment is a new process. -/
theorem AddsSegment.block_eq (hadds : r.AddsSegment name r') :
    ∃ n, r'.block = update r.block r.nextSscb (some (r.nextPcb, n)) ∧
      r'.nextPcb = r.nextPcb + 1 := by
  obtain ⟨_, dummy, r₁, ⟨rfl, vec, _, rfl⟩, rfl⟩ := hadds
  exact ⟨_, rfl, rfl⟩

theorem RemovesSegment.nextPcb (hremoves : r.RemovesSegment name r') :
    r'.nextPcb = r.nextPcb := by
  obtain ⟨_, _, _, _, _, _, _, ⟨_, _, _, _, _, rfl⟩, _, rfl⟩ := hremoves
  rfl

theorem Bounded.addsSegment (hr : r.Bounded) (hdir : r.Directory) (hadds : r.AddsSegment name r') :
    r'.Bounded := by
  obtain ⟨d, hvec, hmap, _, _, hcount⟩ := hadds.records
  obtain ⟨free, hslots⟩ := hdir.slots
  have hnames := hr.names
  have hsize := hr.size
  have hless : r.ssegCount < maxSharedSegments := Nat.lt_of_le_of_ne hr.count hadds.1
  refine ⟨?_, ?_, ?_, fun b dummy' n' hb => ?_⟩
  · rw [hmap, hcount, List.length_cons]
    exact Nat.succ_le_succ hnames
  · rw [hvec, hcount]
    cases free with
    | nil =>
        have hfull : r.ssegVec.size ≤ r.ssegCount := by
          by_contra hmore
          have hzero : 0 < r.ssegVec.size := by omega
          have hlive : r.ssegVec.datum 0 ≠ none := fun hnone => by
            have hfree := (hslots.mem_free 0).mpr ⟨hzero, hnone⟩
            cases hfree
          obtain ⟨d', hd'⟩ := Option.ne_none_iff_exists'.mp hlive
          obtain ⟨entry, hentry, _⟩ := hdir.live 0 d' hd'
          have hlength := List.length_pos_of_mem hentry
          omega
        obtain ⟨_, _, hsize', _⟩ := hslots.insert_nil d
        omega
    | cons first rest =>
        obtain ⟨_, _, hsize', _⟩ := hslots.insert_cons d
        omega
  · rw [hcount]
    exact hless
  · obtain ⟨n, hblock, hnext⟩ := hadds.block_eq
    rw [hnext]
    rw [hblock] at hb
    by_cases hnew : b = r.nextSscb
    · subst b
      rw [update_self] at hb
      cases hb
      exact Nat.lt_succ_self _
    · rw [update_of_ne hnew] at hb
      exact Nat.lt_succ_of_lt (hr.dummies b _ _ hb)

theorem Bounded.removesSegment (hr : r.Bounded) (hdir : r.Directory)
    (hremoves : r.RemovesSegment name r') : r'.Bounded := by
  obtain ⟨b, d, n, hname, hb, hvec, hmap, hblock, _, hcount⟩ := hremoves.records
  obtain ⟨free, hslots⟩ := hdir.slots
  obtain ⟨d', n', hb', hlive⟩ := hdir.housed _ (hdir.lookup_iff.mp hname)
  cases hb.symm.trans hb'
  obtain ⟨_, hvec', _, hsize, _⟩ := hslots.markEmpty_filled (n := n) (by simp [hlive])
  cases hvec.symm.trans hvec'
  refine ⟨?_, ?_, hcount ▸ hr.count, fun b' dummy' n' hb' => ?_⟩
  · rw [hmap, hcount]
    exact (List.length_filter_le ..).trans hr.names
  · rw [hsize, hcount]
    exact hr.size
  · rw [hremoves.nextPcb]
    rw [hblock] at hb'
    by_cases hgone : b' = b
    · subst b'
      rw [update_self] at hb'
      cases hb'
    · rw [update_of_ne hgone] at hb'
      exact hr.dummies b' _ _ hb'

theorem Bounded.step (hr : r.Bounded) (hdir : r.Directory) (hstep : r.Step op r') :
    r'.Bounded := by
  cases op with
  | createProcess | cloneProcess =>
      obtain ⟨h, hnext, _, _, rfl⟩ := hstep
      exact ⟨hr.names, hr.size, hr.count, fun b dummy n hb =>
        hnext ▸ Nat.lt_succ_of_lt (hr.dummies b dummy n hb)⟩
  | deleteProcess h =>
      obtain ⟨_, _, _, _, _, rfl⟩ := hstep
      exact ⟨hr.names, hr.size, hr.count, hr.dummies⟩
  | createSharedSegment h startAddr size name accType =>
      obtain rfl | ⟨_, hadds⟩ := hstep
      · exact hr
      · exact hr.addsSegment hdir hadds
  | deleteSharedSegment name =>
      obtain ⟨_, rfl⟩ | hremoves := hstep
      · exact hr
      · exact hr.removesSegment hdir hremoves
  | createSegment | loadSegment | disconnectSharedSegment | deleteSegment | pageFault | access =>
      cases hstep
      exact hr

theorem Named.live (hnamed : r.Named name n dummy) (hdir : r.Directory) :
    r.ssegVec.datum n = some dummy := by
  obtain ⟨b, hname, hb⟩ := hnamed
  obtain ⟨d, n', hb', hlive⟩ := hdir.housed _ (hdir.lookup_iff.mp hname)
  cases hb.symm.trans hb'
  exact hlive

/-- A name that there is keeps its segment until something is removed. -/
theorem Named.step (hnamed : r.Named name n dummy) (hdir : r.Directory) (hkeeps : ¬ op.Removes)
    (hstep : r.Step op r') : r'.Named name n dummy := by
  obtain ⟨b, hname, hb⟩ := hnamed
  cases op with
  | createProcess | cloneProcess =>
      obtain ⟨h, _, _, _, rfl⟩ := hstep
      exact ⟨b, hname, hb⟩
  | createSegment | loadSegment | pageFault | access =>
      cases hstep
      exact ⟨b, hname, hb⟩
  | createSharedSegment h startAddr size name' accType =>
      obtain rfl | ⟨hnone, hsegment⟩ := hstep
      · exact ⟨b, hname, hb⟩
      · obtain ⟨d, _, hmap, hblock, _, _⟩ := hsegment.records
        have hentry := hdir.lookup_iff.mp hname
        have hne : (name == name') = false := by
          by_contra heq
          rw [Bool.not_eq_false, beq_iff_eq] at heq
          subst name'
          cases hnone.symm.trans hname
        refine ⟨b, ?_, ?_⟩
        · rw [hmap, List.lookup_cons, hne]
          exact hname
        · rw [hblock, update_of_ne (Nat.ne_of_lt (hdir.fresh _ hentry))]
          exact hb
  | deleteProcess | disconnectSharedSegment | deleteSegment | deleteSharedSegment =>
      exact absurd trivial hkeeps

/-- A segment that there is was there, or has a new dummy. -/
theorem Named.before (hnamed : r'.Named name n dummy) (hdir : r.Directory)
    (hstep : r.Step op r') :
    r.Named name n dummy ∨ r.nextPcb ≤ dummy ∧ ∃ h startAddr size accType,
      op = .createSharedSegment h startAddr size name accType := by
  obtain ⟨b, hname, hb⟩ := hnamed
  cases op with
  | createProcess | cloneProcess =>
      obtain ⟨h, _, _, _, rfl⟩ := hstep
      exact .inl ⟨b, hname, hb⟩
  | deleteProcess h =>
      obtain ⟨_, _, _, _, _, rfl⟩ := hstep
      exact .inl ⟨b, hname, hb⟩
  | createSharedSegment h startAddr size name' accType =>
      obtain rfl | ⟨_, hsegment⟩ := hstep
      · exact .inl ⟨b, hname, hb⟩
      · obtain ⟨d, _, hmap, _, _, _⟩ := hsegment.records
        obtain ⟨n', hblock, _⟩ := hsegment.block_eq
        rw [hmap, List.lookup_cons] at hname
        rw [hblock] at hb
        split at hname
        · rename_i heq
          cases hname
          rw [update_self] at hb
          cases hb
          exact .inr ⟨Nat.le_refl _, h, startAddr, size, accType, by rw [beq_iff_eq.mp heq]⟩
        · have hne := Nat.ne_of_lt (hdir.fresh _ (hdir.lookup_iff.mp hname))
          rw [update_of_ne hne] at hb
          exact .inl ⟨b, hname, hb⟩
  | deleteSharedSegment name' =>
      obtain ⟨_, rfl⟩ | hremoves := hstep
      · exact .inl ⟨b, hname, hb⟩
      · obtain ⟨b', d, n', _, _, _, hmap, hblock, _, _⟩ := hremoves.records
        have hmem : (name, b) ∈ r.ssegMap := by
          obtain ⟨l₁, l₂, heq, _⟩ := List.lookup_eq_some_iff.mp hname
          have hfilter : (name, b) ∈ r'.ssegMap := heq ▸ List.mem_append_right l₁ List.mem_cons_self
          rw [hmap] at hfilter
          exact (List.mem_filter.mp hfilter).1
        have hne : b ≠ b' := by
          rintro rfl
          rw [hblock, update_self] at hb
          cases hb
        rw [hblock, update_of_ne hne] at hb
        exact .inl ⟨b, hdir.lookup_iff.mpr hmem, hb⟩
  | createSegment | loadSegment | disconnectSharedSegment | deleteSegment | pageFault | access =>
      cases hstep
      exact .inl ⟨b, hname, hb⟩

/-- A process that there is was there, or is new. -/
theorem Step.was_live {h : Nat} (hstep : r.Step op r') (hlive : (r'.process h).isSome = true) :
    (r.process h).isSome = true ∨ r.nextPcb ≤ h := by
  have hremoved : ∀ {x : Nat}, (update r.process x none h).isSome = true →
      (r.process h).isSome = true := by
    intro x hsome
    by_cases hx : h = x
    · subst x
      rw [update_self] at hsome
      cases hsome
    · rwa [update_of_ne hx] at hsome
  cases op with
  | createProcess | cloneProcess =>
      obtain ⟨x, rfl, _, _, rfl⟩ := hstep
      by_cases hx : h = r.nextPcb
      · exact .inr (Nat.le_of_eq hx.symm)
      · exact .inl (by simpa [update_of_ne hx] using hlive)
  | deleteProcess x =>
      obtain ⟨_, _, _, _, _, rfl⟩ := hstep
      exact .inl (hremoved hlive)
  | createSharedSegment =>
      obtain rfl | ⟨_, _, dummy, _, ⟨rfl, vec, _, rfl⟩, rfl⟩ := hstep
      · exact .inl hlive
      · by_cases hx : h = r.nextPcb
        · exact .inr (Nat.le_of_eq hx.symm)
        · exact .inl (by simpa [update_of_ne hx] using hlive)
  | deleteSharedSegment =>
      obtain ⟨_, rfl⟩ | ⟨_, _, _, _, _, _, _, ⟨_, _, _, _, _, rfl⟩, _, rfl⟩ := hstep
      · exact .inl hlive
      · exact .inl (hremoved hlive)
  | createSegment | loadSegment | disconnectSharedSegment | deleteSegment | pageFault | access =>
      cases hstep
      exact .inl hlive

theorem Named.dummy_lt (hnamed : r.Named name n dummy) (hr : r.Bounded) : dummy < r.nextPcb := by
  obtain ⟨b, _, hb⟩ := hnamed
  exact hr.dummies b dummy n hb

end Registry

namespace KernelSystem

variable {s s' : KernelSystem} {name : String} {n dummy : Nat}

theorem isSegment_iff_named : s.IsSegment name n dummy ↔ s.registry.Named name n dummy := by
  constructor
  · rintro ⟨b, sscb, hname, hb, rfl, rfl⟩
    exact ⟨b, hname, by simp [registry, hb]⟩
  · rintro ⟨b, hname, hb⟩
    obtain ⟨sscb, hsscb, heq⟩ := Option.map_eq_some_iff.mp hb
    exact ⟨b, sscb, hname, hsscb, (Prod.mk.inj heq).1, (Prod.mk.inj heq).2⟩

/-- A name is that of one segment. -/
theorem isSegment_inj {n' dummy' : Nat} (hsegment : s.IsSegment name n dummy)
    (hsegment' : s.IsSegment name n' dummy') : n = n' ∧ dummy = dummy' := by
  obtain ⟨b, sscb, hb, hsscb, rfl, rfl⟩ := hsegment
  obtain ⟨b', sscb', hb', hsscb', rfl, rfl⟩ := hsegment'
  cases hb.symm.trans hb'
  cases hsscb.symm.trans hsscb'
  exact ⟨rfl, rfl⟩

theorem isSegment_of_find (hfind : s.sharedSegmentFind name = .ok (some n)) :
    ∃ dummy, s.IsSegment name n dummy := by
  unfold sharedSegmentFind at hfind
  split at hfind
  · cases hfind
  · rename_i b hname
    split at hfind
    · cases hfind
    · rename_i sscb hb
      cases hfind
      exact ⟨sscb.dummy, b, sscb, hname, hb, rfl, rfl⟩

end KernelSystem

theorem SameObjects.registry {s s' : KernelSystem} (hobjects : SameObjects s s') :
    s'.registry = s.registry := by
  obtain ⟨_, _, _, _, hpcbs, hnext, hvec, hsegs, hmap, hsscbs, hsscb, hcount⟩ := hobjects
  simp only [KernelSystem.registry, Registry.mk.injEq]
  exact ⟨funext hpcbs, hnext, hvec, hsegs, hmap, by rw [hsscbs], hsscb, hcount⟩

namespace MemoryOp

/-- The call that a step is to the records: stores, loads and evictions are as good as an
access. -/
def onRecord : MemoryOp → KernelOp
  | .call op => op
  | .paging _ | .load .. => .access 0 0 .read

variable {levels : Nat} {g : Layout} {s s' : KernelSystem} {op : MemoryOp}

/-- A step that puts nothing on record is paging. -/
theorem passed (hinv : KernelInv g noHand noHand s) (hsound : g.Sound)
    (hproceeds : op.Proceeds levels s) (hexec : op.exec levels s = .ok s')
    (hadds : ¬ op.onRecord.Adds) (hremoves : ¬ op.onRecord.Removes) :
    ∃ g' spares outside, KernelInv g' noHand noHand s' ∧ Passed spares outside g s g' s' := by
  cases op with
  | call op =>
      obtain ⟨g', outside, hinv', hpassed⟩ :=
        call_passed hinv hsound hadds hremoves hproceeds hexec
      exact ⟨g', _, outside, hinv', hpassed⟩
  | paging op =>
      obtain ⟨g', hinv', hpassed⟩ := op.passed hinv hsound hproceeds hexec
      exact ⟨g', _, _, hinv', hpassed⟩
  | load pid addr type =>
      obtain ⟨⟨answer, s₁⟩, hload, hret⟩ := Outcome.bind_ok hexec
      cases hret
      obtain ⟨h, hpcb, _⟩ := Outcome.bind_ok hload
      obtain ⟨g', hinv', hpassed⟩ := load_passed hinv hsound hpcb (hproceeds h hpcb) hload
      exact ⟨g', _, _, hinv', hpassed⟩

/-- The records after a step. -/
theorem Step.registry (hcons : s.Consistent) (hstep : op.Step levels s s') :
    s.registry.Step op.onRecord s'.registry := by
  cases op with
  | call op => exact KernelOp.step_registry hstep.exec
  | paging | load =>
      obtain ⟨g, hinv, hsound⟩ := hcons
      obtain ⟨g', _, _, _, hpassed⟩ := passed hinv hsound hstep.proceeds hstep.exec id id
      exact SameObjects.registry hpassed.objects

/-- A step that removes nothing keeps the rights and the mappings of all pages but new ones. -/
theorem Step.extended (hinv : KernelInv g noHand noHand s) (hsound : g.Sound)
    (hstep : op.Step levels s s') (hkeeps : ¬ op.onRecord.Removes) :
    ∃ g', KernelInv g' noHand noHand s' ∧ g'.Sound ∧
      ∀ v, (SameRights (g.desc v) (g'.desc v) ∧
          ((g.desc v).getShared = true → g'.desc v = g.desc v)) ∨
        (g.desc v).getInseg = false ∧ op.onRecord.Fills s v.proc := by
  by_cases hadds : op.onRecord.Adds
  · cases op with
    | call op =>
        obtain ⟨g', _, _, but, hinv', hcarried, hbut⟩ :=
          hinv.adds_carried hsound hadds hstep.proceeds hstep.exec
        refine ⟨g', hinv', hcarried.sound hsound, fun v => ?_⟩
        by_cases hv : but v
        · exact .inr (hbut v hv)
        · exact .inl ⟨(hcarried.pages v hv).sameRights,
            KernelInv.desc_of_shared (hcarried.pages v hv)⟩
    | paging | load => exact hadds.elim
  · obtain ⟨g', _, _, hinv', hpassed⟩ :=
      passed hinv hsound hstep.proceeds hstep.exec hadds hkeeps
    exact ⟨g', hinv', hpassed.sound hsound, fun v =>
      .inl ⟨hpassed.rights v, hpassed.shared v⟩⟩

end MemoryOp

namespace KernelSystem

/-- The descriptor of a page of a mapping: it names page `i` of segment `n`. -/
def MapsPage (s : KernelSystem) (n i : Nat) (v : LPage) : Prop :=
  ∃ e, s.descriptor v = some e ∧ e.getInseg = true ∧ e.getShared = true ∧
    e.ssegInd.toNat = n ∧ e.block = i

/-- The dummies of the segments have no mappings themselves. -/
def PrivateDummies (s : KernelSystem) : Prop :=
  ∀ name n dummy, s.IsSegment name n dummy →
    ∀ v e, v.proc = dummy → s.descriptor v = some e → e.getShared = false

/-- A state of a run. -/
structure Ready (s : KernelSystem) : Prop where
  consistent : s.Consistent
  masters : s.AllMasters
  directory : s.registry.Directory
  bounded : s.registry.Bounded
  dummies : s.PrivateDummies

/-- Index `n` is that of a segment whose dummy has no mappings itself. -/
structure Houses (s : KernelSystem) (n dummy : Nat) : Prop where
  index : s.ssegVec.atIndex n = .ok dummy
  unshared : ∀ v e, v.proc = dummy → s.descriptor v = some e → e.getShared = false

theorem Ready.houses {s : KernelSystem} {name : String} {n dummy : Nat} (hready : s.Ready)
    (hsegment : s.IsSegment name n dummy) : s.Houses n dummy :=
  ⟨(atIndex_iff hready.directory).mpr ((isSegment_iff_named.mp hsegment).live hready.directory),
    hready.dummies name n dummy hsegment⟩

/-- A page of a mapping is one of a live process. -/
theorem descriptor_shared {g : Layout} {s : KernelSystem} {v : LPage} {m : Nat}
    (hinv : KernelInv g noHand noHand s) (hsound : g.Sound)
    (hm : g.place (.master v.proc) = .frame m) (hshared : (g.desc v).getShared = true) :
    s.descriptor v = some (g.desc v) := by
  rw [hinv.descriptor_eq (KernelInv.not_noMaster hm) (hsound _ _ m hm), if_neg]
  intro hgone
  rw [hinv.shared_nowhere (.inl hgone)] at hshared
  cases hshared

theorem ready_of_booted {s : KernelSystem} (hstart : s.Booted) (huser : s.userspcSize ≤ 65536)
    (hkrnl : s.krnlspcSize ≤ 65536) : s.Ready where
  consistent := ⟨_, hstart.inv huser hkrnl, Layout.sound_none⟩
  masters := MemoryOp.allMasters_of_booted hstart
  directory := hstart.registry ▸ Registry.directory_empty
  bounded := hstart.registry ▸ Registry.bounded_empty
  dummies name n dummy hsegment := by
    rw [isSegment_iff_named, hstart.registry] at hsegment
    obtain ⟨b, hname, _⟩ := hsegment
    cases hname

end KernelSystem

namespace MemoryOp

variable {levels : Nat} {s s' : KernelSystem} {op : MemoryOp} {name : String}
  {n i dummy h : Nat} {v : LPage}

/-- The processes see calls that remove something, and no others, as removals. -/
theorem event_ne_remove (hkeeps : ¬ op.onRecord.Removes) : op.event levels s ≠ .remove := by
  cases op with
  | call op =>
      have hnot : ¬ op.Removes := hkeeps
      rw [event_call hnot]
      exact fun heq => by cases heq
  | paging op =>
      cases op with
      | store =>
          dsimp only [event]
          split <;> exact fun heq => by cases heq
      | pageFault | access | evictPage | evictTable | reload => exact fun heq => by cases heq
  | load =>
      dsimp only [event]
      split <;> exact fun heq => by cases heq

/-- No segment is made in the dummy of a shared one. -/
def SparesDummies (s : KernelSystem) (op : MemoryOp) : Prop :=
  ∀ r ∈ op.onRecord.newRange, ∀ name n, ¬ s.IsSegment name n r.proc

theorem isSegment_step (hready : s.Ready) (hstep : op.Step levels s s')
    (hkeeps : ¬ op.onRecord.Removes) (hsegment : s.IsSegment name n dummy) :
    s'.IsSegment name n dummy := by
  rw [isSegment_iff_named] at hsegment ⊢
  exact hsegment.step hready.directory hkeeps (hstep.registry hready.consistent)

/-- A process stays one until something is removed. -/
theorem hasMaster_step (hready : s.Ready) (hstep : op.Step levels s s')
    (hkeeps : ¬ op.onRecord.Removes) (hmaster : s.HasMaster h) : s'.HasMaster h := by
  obtain ⟨⟨g', hinv', _⟩, _⟩ := (hstep.memory hready.consistent hready.masters).1
  apply hinv'.hasMaster_of_live hstep.masters
  have hlive := (hstep.registry hready.consistent).live hkeeps (h := h)
  simp only [registry, Option.isSome_map] at hlive
  obtain ⟨p, hp, _⟩ := hmaster
  exact hlive (by rw [hp]; rfl)

/-- A page of a mapping stays one. -/
theorem mapsPage_step (hready : s.Ready) (hstep : op.Step levels s s')
    (hkeeps : ¬ op.onRecord.Removes) (hmaps : s.MapsPage n i v) : s'.MapsPage n i v := by
  obtain ⟨e, he, hinseg, hshared, hnames⟩ := hmaps
  obtain ⟨g, hinv, hsound⟩ := hready.consistent
  obtain ⟨hmaster, rfl⟩ := hready.masters.desc hinv hsound he
  obtain ⟨g', hinv', hsound', hpages⟩ := hstep.extended hinv hsound hkeeps
  obtain ⟨m', hm'⟩ := hinv'.hasMaster_iff.mp (hasMaster_step hready hstep hkeeps hmaster)
  obtain ⟨_, hsame⟩ | ⟨hnew, _⟩ := hpages v
  · have heq := hsame hshared
    rw [← heq] at hinseg hshared hnames
    exact ⟨_, descriptor_shared hinv' hsound' hm' hshared, hinseg, hshared, hnames⟩
  · cases hinseg.symm.trans hnew

/-- A step makes no page of an old dummy one of a mapping. -/
theorem unshared_step {g : Layout} (hready : s.Ready) (hinv : KernelInv g noHand noHand s)
    (hsound : g.Sound) (hstep : op.Step levels s s') (hspares : op.SparesDummies s)
    (hsegment : s.IsSegment name n v.proc) : ∃ g', KernelInv g' noHand noHand s' ∧ g'.Sound ∧
      ((g'.desc v).getShared = false ∨ SameRights (g.desc v) (g'.desc v)) := by
  by_cases hremoves : op.onRecord.Removes
  · cases op with
    | call op =>
        obtain ⟨g', _, _, but, hinv', hcarried, hbut⟩ :=
          hinv.removes_carried hsound hremoves hstep.proceeds hstep.exec
        refine ⟨g', hinv', hcarried.sound hsound, ?_⟩
        by_cases hv : but v
        · exact .inl (hbut v hv).2
        · exact .inr (hcarried.pages v hv).sameRights
    | paging | load => exact hremoves.elim
  · obtain ⟨g', hinv', hsound', hpages⟩ := hstep.extended hinv hsound hremoves
    refine ⟨g', hinv', hsound', .inr ?_⟩
    obtain ⟨hrights, _⟩ | ⟨_, ⟨r, hr, hproc⟩ | hmade⟩ := hpages v
    · exact hrights
    · exact absurd (hproc ▸ hsegment) (hspares r hr name n)
    · have hlt := (isSegment_iff_named.mp hsegment).dummy_lt hready.bounded
      exact absurd hlt (Nat.not_lt.mpr hmade)

/-- The dummies have no mappings unless one is made in them. -/
theorem privateDummies_step (hready : s.Ready) (hstep : op.Step levels s s')
    (hspares : op.SparesDummies s) : s'.PrivateDummies := by
  intro name n dummy hsegment v e hv he
  subst dummy
  have hregistry := hstep.registry hready.consistent
  obtain ⟨g, hinv, hsound⟩ := hready.consistent
  obtain hold | ⟨hmade, h, startAddr, size, accType, heq⟩ :=
    (isSegment_iff_named.mp hsegment).before hready.directory hregistry
  · have hold' := isSegment_iff_named.mpr hold
    obtain ⟨g', hinv', hsound', hpage⟩ := unshared_step hready hinv hsound hstep hspares hold'
    obtain ⟨hmaster', rfl⟩ := hstep.masters.desc hinv' hsound' he
    obtain hunshared | hrights := hpage
    · exact hunshared
    · by_contra hshared
      rw [Bool.not_eq_false, hrights.shared] at hshared
      have hlive : (s.pcbs v.proc).isSome = true := by
        obtain ⟨p, hp, _⟩ := hmaster'
        obtain hlive | hnew := hregistry.was_live (h := v.proc) (by simp [registry, hp])
        · simpa [registry] using hlive
        · exact absurd (hold.dummy_lt hready.bounded) (Nat.not_lt.mpr hnew)
      obtain ⟨m, hm⟩ := hinv.hasMaster_iff.mp (hinv.hasMaster_of_live hready.masters hlive)
      have hnot := hready.dummies name n v.proc hold' v _ rfl
        (descriptor_shared hinv hsound hm hshared)
      cases hshared.symm.trans hnot
  · cases op with
    | call op =>
        obtain rfl : op = .createSharedSegment h startAddr size name accType := heq
        obtain ⟨g', _, _, _, hinv', hcarried, _, hunused⟩ :=
          hinv.createSharedSegment_carried hsound hstep.proceeds hstep.exec
        obtain ⟨_, rfl⟩ := hstep.masters.desc hinv' (hcarried.sound hsound) he
        exact hunused.unshared v hmade
    | paging | load => cases heq

theorem ready_step (hready : s.Ready) (hstep : op.Step levels s s')
    (hspares : op.SparesDummies s) : s'.Ready := by
  have hregistry := hstep.registry hready.consistent
  obtain ⟨hcons, hall⟩ := (hstep.memory hready.consistent hready.masters).1
  exact ⟨hcons, hall, hready.directory.step hregistry,
    hready.bounded.step hready.directory hregistry, privateDummies_step hready hstep hspares⟩

end MemoryOp

/-- A range of a process that a shared segment is mapped to. -/
structure Mapping where
  proc : Nat
  startAddr : Nat
  size : Nat

namespace Mapping

/-- The page of a mapping that an offset is in. -/
def page (m : Mapping) (offset : Nat) : LPage := pageOf m.proc (m.startAddr + offset)

theorem page_eq (m : Mapping) (haligned : m.startAddr % pageSize = 0) (offset : Nat) :
    pageOf m.proc (pageAddr m.startAddr (offset / pageSize)) = m.page offset := by
  refine LPage.eq_of_number rfl ?_
  rw [number_pageAddr, page, number_pageOf]
  unfold pageSize at haligned ⊢
  omega

/-- The call that makes a mapping. -/
def connect (m : Mapping) (name : String) (accType : AccessType) : KernelOp :=
  .createSharedSegment m.proc m.startAddr m.size name accType

/-- All pages of the mapping name their pages of segment `n`. -/
structure On (m : Mapping) (n : Nat) (s : KernelSystem) : Prop where
  aligned : m.startAddr % pageSize = 0
  size_le : m.size ≤ 16384
  pages : ∀ offset, offset < m.size * pageSize →
    s.MapsPage n (offset / pageSize) (m.page offset)

namespace On

variable {m : Mapping} {n offset : Nat} {s : KernelSystem}

theorem offset_mod (hon : m.On n s) (offset : Nat) :
    (m.startAddr + offset) % pageSize = offset % pageSize := by
  rw [Nat.add_mod, hon.aligned, Nat.zero_add, Nat.mod_mod]

theorem offsetOf_eq (hon : m.On n s) (offset : Nat) :
    offsetOf (m.startAddr + offset) = offsetOf offset := Fin.ext (hon.offset_mod offset)

/-- The address in the segment that an offset of the mapping is looked for at. -/
theorem ssegAddr_eq {e : PageTableL2Entry} (hon : m.On n s)
    (hblock : e.block = offset / pageSize) : ssegAddr e (m.startAddr + offset) = offset := by
  rw [ssegAddr, hblock]
  have haligned := hon.aligned
  unfold pageSize at haligned ⊢
  omega

/-- The descriptors that `create_shared_segment` writes. -/
theorem of_pages {g : Layout} {f : Nat} {accType : AccessType} (hinv : KernelInv g noHand noHand s)
    (hsound : g.Sound) (hm : g.place (.master m.proc) = .frame f)
    (haligned : m.startAddr % pageSize = 0) (hsize : m.size ≤ 16384) (hlt : n < 256)
    (hpages : ∀ i, i < m.size →
      SharedPage n i accType (g.desc (pageOf m.proc (pageAddr m.startAddr i)))) : m.On n s := by
  refine ⟨haligned, hsize, fun offset hoffset => ?_⟩
  have hi : offset / pageSize < m.size := Nat.div_lt_of_lt_mul (by rwa [Nat.mul_comm])
  have hpage := hpages _ hi
  rw [m.page_eq haligned] at hpage
  refine ⟨_, hinv.descriptor_inseg hsound hm hpage.inseg, hpage.inseg, hpage.shared, ?_, ?_⟩
  · rw [hpage.ssegInd, BitVec.toNat_ofNat]
    omega
  · rw [hpage.block]
    exact Nat.mod_eq_of_lt (Nat.lt_of_lt_of_le hi (hsize.trans (by decide)))

end On

end Mapping

/-- A step of clients: no segment is made in a dummy. -/
def ClientStep (levels : Nat) (s : KernelSystem) (op : MemoryOp) (s' : KernelSystem) : Prop :=
  op.Step levels s s' ∧ op.SparesDummies s

/-- A step that removes nothing, either. -/
def KeepingStep (levels : Nat) (s : KernelSystem) (op : MemoryOp) (s' : KernelSystem) : Prop :=
  ClientStep levels s op s' ∧ ¬ op.onRecord.Removes

/-- A mapping is made, with status OK. -/
def Connects (levels : Nat) (name : String) (m : Mapping) (s s' : KernelSystem) : Prop :=
  ∃ accType, ClientStep levels s (.call (m.connect name accType)) s' ∧
    s.createSharedSegment m.proc m.startAddr m.size name accType = .ok (.ok, s')

theorem Connects.on {levels : Nat} {name : String} {m : Mapping} {s s' : KernelSystem}
    (hready : s.Ready) (hconnects : Connects levels name m s s') :
    s'.Ready ∧ ∃ n dummy, s'.IsSegment name n dummy ∧ m.On n s' := by
  obtain ⟨accType, ⟨hstep, hspares⟩, hcreate⟩ := hconnects
  have hready' := MemoryOp.ready_step hready hstep hspares
  refine ⟨hready', ?_⟩
  obtain ⟨g, hinv, hsound⟩ := hready.consistent
  have horderly : (m.connect name accType).Orderly levels s := hstep.proceeds
  obtain ⟨h₀, hm⟩ := hinv.hasMaster_iff.mp (horderly.masters m.proc rfl)
  have hclear := hinv.range_clear hsound hm (horderly.clears _ rfl) fun hrefuses =>
    hinv.createSharedSegment_refused hm hrefuses hcreate
  obtain ⟨g', hinv', hm', _, ⟨hok, _⟩ | ⟨_, hnew, hcarried, ⟨n, hfound, hpages⟩, _⟩⟩ :=
    hinv.createSharedSegment_inv hsound hm hclear hcreate
  · cases hok
  obtain ⟨dummy, hsegment⟩ := isSegment_of_find hfound
  have hlt := hready'.bounded.index_lt
    ((isSegment_iff_named.mp hsegment).live hready'.directory)
  have hmakes : (m.connect name accType).Makes s s' := hcreate
  exact ⟨n, dummy, hsegment, .of_pages hinv' (hcarried.sound hsound) hm' (hmakes.aligned rfl)
    hnew.size_le hlt hpages⟩

namespace KeepingStep

variable {levels n dummy : Nat} {name : String} {m : Mapping} {s s' : KernelSystem}
  {op : MemoryOp} {ops : List MemoryOp}

/-- What a run that removes nothing keeps of a mapping. -/
theorem keeps_of_run (hrun : Run (KeepingStep levels) s ops s') (hready : s.Ready)
    (hsegment : s.IsSegment name n dummy) :
    s'.Ready ∧ s'.IsSegment name n dummy ∧ ∀ m : Mapping, m.On n s → m.On n s' := by
  refine hrun.invariant (fun s' => s'.Ready ∧ s'.IsSegment name n dummy ∧
    ∀ m : Mapping, m.On n s → m.On n s') ?_ ⟨hready, hsegment, fun _ => id⟩
  rintro s₁ op s₂ ⟨hready₁, hsegment₁, hon₁⟩ ⟨⟨hstep, hspares⟩, hkeeps⟩
  refine ⟨MemoryOp.ready_step hready₁ hstep hspares,
    MemoryOp.isSegment_step hready₁ hstep hkeeps hsegment₁, fun m hon => ?_⟩
  have hpages := hon₁ m hon
  exact ⟨hpages.aligned, hpages.size_le, fun offset hoffset =>
    MemoryOp.mapsPage_step hready₁ hstep hkeeps (hpages.pages offset hoffset)⟩

/-- What the processes see of such a run is a flat memory that no byte is removed from. -/
theorem memory_of_run (hrun : Run (KeepingStep levels) s ops s') (hready : s.Ready) {c : LByte}
    {b : BitVec 8} (hb : s.memory c = some b) :
    s'.memory c = some (lastStored c b (MemoryOp.events levels s ops)) := by
  refine kept_of_run (hrun.simulate_observed _ _ Ready memory
    (fun _ _ _ hstep => by rw [hstep.1.1.exec]; rfl) ?_ hready).2 hb
  rintro s op s' hready ⟨⟨hstep, hspares⟩, hkeeps⟩
  exact ⟨MemoryOp.ready_step hready hstep hspares,
    (hstep.memory hready.consistent hready.masters).2, MemoryOp.event_ne_remove hkeeps⟩

end KeepingStep

/-- A run in which a segment is mapped twice, at different times, and nothing is removed after
the first mapping was made. -/
def MappedTwice (levels : Nat) (name : String) (m₁ m₂ : Mapping) (start s : KernelSystem) :
    Prop :=
  ∃ ops₀ s₀ s₁ ops₁ s₂ s₃ ops₂, Run (ClientStep levels) start ops₀ s₀ ∧
    Connects levels name m₁ s₀ s₁ ∧ Run (KeepingStep levels) s₁ ops₁ s₂ ∧
    Connects levels name m₂ s₂ s₃ ∧ Run (KeepingStep levels) s₃ ops₂ s

namespace MemoryOp

/-- A test of `SparesDummies`. -/
def sparesDummies (s : KernelSystem) (op : MemoryOp) : Bool :=
  op.onRecord.newRange.all fun r => s.ssegMap.all fun entry =>
    (s.sscbs entry.2).all fun sscb => decide (sscb.dummy ≠ r.proc)

theorem sparesDummies_of_check {s : KernelSystem} {op : MemoryOp}
    (htest : op.sparesDummies s = true) : op.SparesDummies s := by
  rintro r hr name n ⟨b, sscb, hname, hb, hdummy, _⟩
  obtain ⟨l₁, l₂, heq, _⟩ := List.lookup_eq_some_iff.mp hname
  have hmem : (name, b) ∈ s.ssegMap := heq ▸ List.mem_append_right l₁ List.mem_cons_self
  simp only [sparesDummies, Option.all_eq_true, List.all_eq_true] at htest
  exact of_decide_eq_true (htest r hr _ hmem sscb hb) hdummy

/-- One step of clients in a small kernel. -/
def clientStep (levels : Nat) (s : KernelSystem) (op : MemoryOp) : Option KernelSystem :=
  if op.sparesDummies s then follow levels anyState s [op] else none

theorem clientStep_of_check {levels : Nat} {s s' : KernelSystem} {op : MemoryOp}
    (hstep : clientStep levels s op = some s') : ClientStep levels s op s' := by
  unfold clientStep at hstep
  split at hstep
  · rename_i hspares
    cases run_of_follow hstep with
    | cons hfirst hrest =>
        cases hrest
        exact ⟨hfirst.1, sparesDummies_of_check hspares⟩
  · cases hstep

/-- Steps of clients, one after the other. -/
def clients (levels : Nat) (ops : List MemoryOp) (s : KernelSystem) : Option KernelSystem :=
  Run.follow (clientStep levels) s ops

theorem run_of_clients {levels : Nat} {s s' : KernelSystem} {ops : List MemoryOp}
    (hclients : clients levels ops s = some s') : Run (ClientStep levels) s ops s' :=
  Run.of_follow (fun _ _ _ => clientStep_of_check) hclients

theorem keeping_of_clients {levels : Nat} {s s' : KernelSystem} {ops : List MemoryOp}
    (hkeeps : ∀ op ∈ ops, ¬ op.onRecord.Removes) (hclients : clients levels ops s = some s') :
    Run (KeepingStep levels) s ops s' :=
  ((run_of_clients hclients).guarded hkeeps).weaken fun _ _ _ hstep => ⟨hstep.2, hstep.1⟩

end MemoryOp

/-- A small kernel makes a mapping. -/
def Mapping.connected (levels : Nat) (name : String) (m : Mapping) (s : KernelSystem) :
    Option KernelSystem :=
  (MemoryOp.clientStep levels s (.call (m.connect name .readWrite))).filter fun _ =>
    Outcome.holds (s.createSharedSegment m.proc m.startAddr m.size name .readWrite) fun r =>
      decide (r.1 = .ok)

theorem Mapping.connects_of_check {levels : Nat} {name : String} {m : Mapping}
    {s s' : KernelSystem} (hconnected : m.connected levels name s = some s') :
    Connects levels name m s s' := by
  obtain ⟨hstep, hok⟩ := Option.filter_eq_some_iff.mp hconnected
  have hclient := MemoryOp.clientStep_of_check hstep
  refine ⟨.readWrite, hclient, ?_⟩
  have hexec : (m.connect name .readWrite).exec levels s = .ok s' := hclient.1.exec
  simp only [Mapping.connect, KernelOp.exec] at hexec
  obtain ⟨⟨status, s₁⟩, hcreate, hret⟩ := Outcome.bind_ok hexec
  cases hret
  simp only [hcreate, Outcome.holds, decide_eq_true_eq] at hok
  rw [hcreate, hok]

/-- Two processes. -/
def firstMapping : Mapping := ⟨0, 0, 1⟩

def secondMapping : Mapping := ⟨1, 1024, 1⟩

/-- Both processes map the same segment of a page, and the first one uses it. -/
def mappedByTwo : Option (KernelSystem × KernelSystem) :=
  (smallKernel 1 6 8 []).toOption.bind fun start =>
    (MemoryOp.clients 2 [.call .createProcess, .call .createProcess] start).bind fun s₀ =>
      (firstMapping.connected 2 "s" s₀).bind fun s₁ =>
        (secondMapping.connected 2 "s" s₁).bind fun s₃ =>
          (MemoryOp.clients 2 [.paging (.pageFault 0 0)] s₃).map (start, ·)

theorem mappedByTwo_mapped {start s : KernelSystem} (hmapped : mappedByTwo = some (start, s)) :
    start.Ready ∧ MappedTwice 2 "s" firstMapping secondMapping start s := by
  simp only [mappedByTwo, Option.bind_eq_some_iff, Option.map_eq_some_iff] at hmapped
  obtain ⟨start', hboot, s₀, hrun₀, s₁, hfirst, s₃, hsecond, s', hrun₂, heq⟩ := hmapped
  cases heq
  have hsizes : (smallKernel 1 6 8 []).toOption.all (fun k =>
      decide (k.userspcSize ≤ 65536) && decide (k.krnlspcSize ≤ 65536)) = true := by decide
  simp only [hboot, Option.all_some, Bool.and_eq_true, decide_eq_true_eq] at hsizes
  refine ⟨ready_of_booted (smallKernel_booted (Outcome.toOption_ok hboot)) hsizes.1 hsizes.2,
    _, s₀, s₁, [], s₁, s₃, _, MemoryOp.run_of_clients hrun₀, Mapping.connects_of_check hfirst,
    .nil s₁, Mapping.connects_of_check hsecond, MemoryOp.keeping_of_clients ?_ hrun₂⟩
  intro op hop
  obtain rfl := List.mem_singleton.mp hop
  exact id

section Twice

variable {levels : Nat} {name : String} {m₁ m₂ : Mapping} {start s : KernelSystem}

/-- Both mappings are mappings of the same segment. -/
theorem MappedTwice.on (hstart : start.Ready)
    (htwice : MappedTwice levels name m₁ m₂ start s) :
    s.Ready ∧ ∃ n dummy, s.IsSegment name n dummy ∧ m₁.On n s ∧ m₂.On n s := by
  obtain ⟨ops₀, s₀, s₁, ops₁, s₂, s₃, ops₂, hrun₀, hconnects₁, hrun₁, hconnects₂, hrun₂⟩ := htwice
  have hready₀ : s₀.Ready := hrun₀.invariant Ready
    (fun _ _ _ hready hstep => MemoryOp.ready_step hready hstep.1 hstep.2) hstart
  obtain ⟨hready₁, n, dummy, hsegment₁, hon₁⟩ := hconnects₁.on hready₀
  obtain ⟨hready₂, hsegment₂, hkept₂⟩ := KeepingStep.keeps_of_run hrun₁ hready₁ hsegment₁
  obtain ⟨hready₃, n', dummy', hsegment₃, hon₃⟩ := hconnects₂.on hready₂
  obtain ⟨accType, hstep, _⟩ := hconnects₂
  have hstep₃ : KeepingStep levels s₂ (.call (m₂.connect name accType)) s₃ := ⟨hstep, id⟩
  obtain ⟨_, hsegment₃', hkept₃⟩ :=
    KeepingStep.keeps_of_run (.cons hstep₃ (.nil _)) hready₂ hsegment₂
  obtain ⟨rfl, rfl⟩ := isSegment_inj hsegment₃' hsegment₃
  obtain ⟨hready, hsegment, hkept⟩ := KeepingStep.keeps_of_run hrun₂ hready₃ hsegment₃'
  exact ⟨hready, n, dummy, hsegment, hkept m₁ (hkept₃ m₁ (hkept₂ m₁ hon₁)), hkept m₂ hon₃⟩

/-- An offset of a mapping is the offset in the dummy. -/
theorem Mapping.On.resolve_eq {m : Mapping} {n dummy offset : Nat} (hhoused : s.Houses n dummy)
    (hon : m.On n s) (hoffset : offset < m.size * pageSize) (depth : Nat) :
    s.resolve (depth + 1) m.proc (m.startAddr + offset) = s.resolve depth dummy offset := by
  obtain ⟨e, he, _, hshared, hind, hblock⟩ := hon.pages offset hoffset
  have hdescriptor : s.descriptor (pageOf m.proc (m.startAddr + offset)) = some e := he
  rw [resolve, hdescriptor, Option.bind_some, if_pos hshared, hind, hhoused.index,
    hon.ssegAddr_eq hblock]
  rfl

/-- An address of a dummy leads to its own page. -/
theorem resolve_dummy {n dummy offset depth : Nat} {v : LPage} (hhoused : s.Houses n dummy)
    (hresolve : s.resolve depth dummy offset = some v) : v = pageOf dummy offset := by
  cases depth with
  | zero => cases hresolve
  | succ depth =>
      obtain ⟨e, he, hrest⟩ := Option.bind_eq_some_iff.mp hresolve
      rw [if_neg (by simp [hhoused.unshared _ e rfl he])] at hrest
      exact (Option.some.inj hrest).symm

/-- An access through a mapping that is granted, to the page of the dummy. -/
theorem Mapping.On.leads {m : Mapping} {g : Layout} {s' : KernelSystem}
    {n dummy offset pid : Nat} {type : AccessType} (hhoused : s.Houses n dummy)
    (hinv : KernelInv g noHand noHand s) (hsound : g.Sound) (hon : m.On n s)
    (hoffset : offset < m.size * pageSize) (hpcb : s.accessPcb pid = .ok m.proc)
    (hmasters : MastersIn levels s m.proc (m.startAddr + offset))
    (haccess : s.access levels pid (m.startAddr + offset) type false = .ok (.ok, s')) :
    Leads g s levels m.proc (m.startAddr + offset) (pageOf dummy offset) := by
  obtain ⟨_, _, _, hok⟩ := hinv.access_passed hsound hmasters hpcb haccess
  obtain ⟨v, hleads, _⟩ := hok rfl
  have hresolve := hleads.resolve_eq hinv hsound
  cases levels with
  | zero => cases hresolve
  | succ depth =>
      rw [hon.resolve_eq hhoused hoffset] at hresolve
      rwa [← resolve_dummy hhoused hresolve]

/-- Offsets in two mappings of one segment that lead to its pages get the same frame where they
are in the same page, and only there. -/
theorem Mapping.On.same_frames {g : Layout} {n dummy o₁ o₂ : Nat}
    (hinv : KernelInv g noHand noHand s) (hon₁ : m₁.On n s) (hon₂ : m₂.On n s)
    (ho₁ : o₁ < m₁.size * pageSize) (ho₂ : o₂ < m₂.size * pageSize)
    (hleads₁ : Leads g s levels m₁.proc (m₁.startAddr + o₁) (pageOf dummy o₁))
    (hleads₂ : Leads g s levels m₂.proc (m₂.startAddr + o₂) (pageOf dummy o₂)) :
    ∃ f₁ f₂, s.getPa levels m₁.proc (m₁.startAddr + o₁) = .ok (some (f₁, o₁ % pageSize)) ∧
      s.getPa levels m₂.proc (m₂.startAddr + o₂) = .ok (some (f₂, o₂ % pageSize)) ∧
      (f₁ = f₂ ↔ o₁ / pageSize = o₂ / pageSize) := by
  refine ⟨(g.desc (pageOf dummy o₁)).block, (g.desc (pageOf dummy o₂)).block, ?_, ?_, ?_⟩
  · rw [hleads₁.getPa_eq hinv, hon₁.offset_mod]
  · rw [hleads₂.getPa_eq hinv, hon₂.offset_mod]
  · have hpages : pageOf dummy o₁ = pageOf dummy o₂ ↔ o₁ / pageSize = o₂ / pageSize := by
      have hsize₁ := hon₁.size_le
      have hsize₂ := hon₂.size_le
      unfold pageSize at ho₁ ho₂ ⊢
      refine ⟨fun heq => ?_, fun heq => LPage.eq_of_number rfl ?_⟩
      · have hnumber := congrArg LPage.number heq
        rw [number_pageOf, number_pageOf] at hnumber
        omega
      · rw [number_pageOf, number_pageOf, heq]
    rw [← hpages]
    refine ⟨fun hblock => ?_, fun heq => by rw [heq]⟩
    by_contra hne
    exact hinv.user.frames.ordinal_ne hleads₁.resident hleads₂.resident (Ne.symm hne) hblock.symm

/-- One memory, seen through two mappings: wherever both processes are granted access, the
frames that they get are the same for offsets in the same page of the segment, and for no
others. -/
theorem mappings_translate {o₁ o₂ pid₁ pid₂ : Nat} {type₁ type₂ : AccessType}
    {t₁ t₂ : KernelSystem} (hstart : start.Ready)
    (htwice : MappedTwice levels name m₁ m₂ start s)
    (ho₁ : o₁ < m₁.size * pageSize) (ho₂ : o₂ < m₂.size * pageSize)
    (hpcb₁ : s.accessPcb pid₁ = .ok m₁.proc) (hpcb₂ : s.accessPcb pid₂ = .ok m₂.proc)
    (hmasters₁ : MastersIn levels s m₁.proc (m₁.startAddr + o₁))
    (hmasters₂ : MastersIn levels s m₂.proc (m₂.startAddr + o₂))
    (haccess₁ : s.access levels pid₁ (m₁.startAddr + o₁) type₁ false = .ok (.ok, t₁))
    (haccess₂ : s.access levels pid₂ (m₂.startAddr + o₂) type₂ false = .ok (.ok, t₂)) :
    ∃ f₁ f₂, s.getPa levels m₁.proc (m₁.startAddr + o₁) = .ok (some (f₁, o₁ % pageSize)) ∧
      s.getPa levels m₂.proc (m₂.startAddr + o₂) = .ok (some (f₂, o₂ % pageSize)) ∧
      (f₁ = f₂ ↔ o₁ / pageSize = o₂ / pageSize) := by
  obtain ⟨hready, n, dummy, hsegment, hon₁, hon₂⟩ := htwice.on hstart
  have hhoused := hready.houses hsegment
  obtain ⟨g, hinv, hsound⟩ := hready.consistent
  exact hon₁.same_frames hinv hon₂ ho₁ ho₂
    (hon₁.leads hhoused hinv hsound ho₁ hpcb₁ hmasters₁ haccess₁)
    (hon₂.leads hhoused hinv hsound ho₂ hpcb₂ hmasters₂ haccess₂)

/-- Two offsets in the page of the segment. -/
theorem mappings_translate_page : ∃ (s : KernelSystem) (f₁ f₂ : Nat),
    s.getPa 2 0 1 = .ok (some (f₁, 1)) ∧ s.getPa 2 1 1026 = .ok (some (f₂, 2)) ∧
      (f₁ = f₂ ↔ 1 / pageSize = 2 / pageSize) := by
  have hruns : mappedByTwo.any (fun r =>
      decide ((r.2.accessPcb 0).toOption = some 0) &&
      decide ((r.2.accessPcb 1).toOption = some 1) &&
      r.2.mastersIn 2 0 1 && r.2.mastersIn 2 1 1026 &&
      Outcome.holds (r.2.access 2 0 1 .read false) (fun r => decide (r.1 = .ok)) &&
      Outcome.holds (r.2.access 2 1 1026 .read false) fun r => decide (r.1 = .ok)) = true := by
    decide +kernel
  obtain ⟨⟨start, s⟩, hmapped, hcheck⟩ := (Option.any_eq_true _ _).mp hruns
  simp only [Bool.and_eq_true, decide_eq_true_eq] at hcheck
  obtain ⟨⟨⟨⟨⟨hpcb₁, hpcb₂⟩, hmasters₁⟩, hmasters₂⟩, haccess₁⟩, haccess₂⟩ := hcheck
  obtain ⟨⟨_, t₁⟩, haccess₁, hok₁⟩ := Outcome.of_holds haccess₁
  obtain ⟨⟨_, t₂⟩, haccess₂, hok₂⟩ := Outcome.of_holds haccess₂
  obtain rfl := of_decide_eq_true hok₁
  obtain rfl := of_decide_eq_true hok₂
  obtain ⟨hstart, htwice⟩ := mappedByTwo_mapped hmapped
  have hone : 1 < firstMapping.size * pageSize := by decide
  have htwo : 2 < secondMapping.size * pageSize := by decide
  have hmasters₁ : MastersIn 2 s firstMapping.proc (firstMapping.startAddr + 1) :=
    mastersIn_of_check hmasters₁
  have hmasters₂ : MastersIn 2 s secondMapping.proc (secondMapping.startAddr + 2) :=
    mastersIn_of_check hmasters₂
  have htranslate := mappings_translate hstart htwice hone htwo (Outcome.toOption_ok hpcb₁)
    (Outcome.toOption_ok hpcb₂) hmasters₁ hmasters₂ haccess₁ haccess₂
  exact ⟨s, htranslate⟩

/-- What is stored through one mapping of a segment is loaded through another one. -/
theorem Mapping.On.stores_shared {n dummy o pid₁ pid₂ : Nat} {type : AccessType}
    {value loaded : BitVec 8} {ops : List MemoryOp} {t s' s'' t' : KernelSystem}
    (hready : s.Ready) (hsegment : s.IsSegment name n dummy) (hon₁ : m₁.On n s)
    (hon₂ : m₂.On n s) (ho₁ : o < m₁.size * pageSize) (ho₂ : o < m₂.size * pageSize)
    (hpcb₁ : s.accessPcb pid₁ = .ok m₁.proc)
    (haccess : s.access levels pid₁ (m₁.startAddr + o) .write false = .ok (.ok, t))
    (hstore : KeepingStep levels s (.paging (.store pid₁ (m₁.startAddr + o) value)) s')
    (hrun : Run (KeepingStep levels) s' ops s'')
    (hspared : ∀ c value', s.granted levels pid₁ (m₁.startAddr + o) .write = some c →
      Event.store c value' ∉ MemoryOp.events levels s' ops)
    (hpcb₂ : s''.accessPcb pid₂ = .ok m₂.proc)
    (hmasters : MastersIn levels s'' m₂.proc (m₂.startAddr + o))
    (hloaded : s''.loadThrough levels pid₂ (m₂.startAddr + o) type = .ok (some loaded, t')) :
    loaded = value := by
  obtain ⟨g, hinv, hsound⟩ := hready.consistent
  have hstep := hstore.1.1
  have hleads := hon₁.leads (hready.houses hsegment) hinv hsound ho₁ hpcb₁
    (hstep.proceeds m₁.proc hpcb₁) haccess
  -- The byte of the dummy that both offsets stand for.
  have hgranted : s.granted levels pid₁ (m₁.startAddr + o) .write =
      some (pageOf dummy o, offsetOf o) := by
    simp [granted, hpcb₁, haccess, hleads.resolve_eq hinv hsound, hon₁.offsetOf_eq]
  have hstored : s'.memory (pageOf dummy o, offsetOf o) = some value := by
    have hevent := (hstep.memory hready.consistent hready.masters).2
    simp only [MemoryOp.event, hgranted] at hevent
    exact hevent.2.1
  -- It is the same byte, with the same value, when it is loaded.
  obtain ⟨hready', hsegment', hkept'⟩ :=
    KeepingStep.keeps_of_run (.cons hstore hrun) hready hsegment
  have hlast := KeepingStep.memory_of_run hrun
    (MemoryOp.ready_step hready hstep hstore.1.2) hstored
  rw [lastStored_of_spared fun value' => hspared _ value' hgranted] at hlast
  obtain ⟨g', hinv', hsound'⟩ := hready'.consistent
  obtain ⟨t, haccess'⟩ := KernelInv.access_of_loaded hpcb₂ hloaded
  have hleads' := (hkept' m₂ hon₂).leads (hready'.houses hsegment') hinv' hsound' ho₂ hpcb₂
    hmasters haccess'
  have hgranted' : s''.granted levels pid₂ (m₂.startAddr + o) type =
      some (pageOf dummy o, offsetOf o) := by
    simp [granted, hpcb₂, haccess', hleads'.resolve_eq hinv' hsound', hon₂.offsetOf_eq]
  have hread := hinv'.load_memory hsound' hpcb₂ hmasters hgranted' hloaded
  exact Option.some.inj (hread.symm.trans hlast)

/-- What one process stores through its mapping is what another one loads through its own, if
nothing else is stored there in between, whatever is evicted and brought back. -/
theorem mappings_share_stores {o pid₁ pid₂ : Nat} {type : AccessType} {value loaded : BitVec 8}
    {ops : List MemoryOp} {t s' s'' t' : KernelSystem} (hstart : start.Ready)
    (htwice : MappedTwice levels name m₁ m₂ start s)
    (ho₁ : o < m₁.size * pageSize) (ho₂ : o < m₂.size * pageSize)
    (hpcb₁ : s.accessPcb pid₁ = .ok m₁.proc)
    (haccess : s.access levels pid₁ (m₁.startAddr + o) .write false = .ok (.ok, t))
    (hstore : KeepingStep levels s (.paging (.store pid₁ (m₁.startAddr + o) value)) s')
    (hrun : Run (KeepingStep levels) s' ops s'')
    (hspared : ∀ c value', s.granted levels pid₁ (m₁.startAddr + o) .write = some c →
      Event.store c value' ∉ MemoryOp.events levels s' ops)
    (hpcb₂ : s''.accessPcb pid₂ = .ok m₂.proc)
    (hmasters : MastersIn levels s'' m₂.proc (m₂.startAddr + o))
    (hloaded : s''.loadThrough levels pid₂ (m₂.startAddr + o) type = .ok (some loaded, t')) :
    loaded = value := by
  obtain ⟨hready, n, dummy, hsegment, hon₁, hon₂⟩ := htwice.on hstart
  exact hon₁.stores_shared hready hsegment hon₂ ho₁ ho₂ hpcb₁ haccess hstore hrun hspared hpcb₂
    hmasters hloaded

/-- What happens between the store and the load: the page is evicted and comes back. -/
def evictedAndBack : List MemoryOp := [.paging (.evictPage 0), .paging (.pageFault 1 1024)]

/-- The second process loads what the first one stored. -/
theorem mappings_share_stores_five : ∃ (s t' : KernelSystem) (b : BitVec 8),
    s.loadThrough 2 1 1024 .read = .ok (some b, t') ∧ b = 5#8 := by
  have hruns : mappedByTwo.any (fun r =>
      decide ((r.2.accessPcb 0).toOption = some 0) &&
      Outcome.holds (r.2.access 2 0 0 .write false) (fun r => decide (r.1 = .ok)) &&
      (MemoryOp.clients 2 [.paging (.store 0 0 5#8)] r.2).any fun s' =>
        decide (MemoryOp.events 2 s' evictedAndBack = [.quiet, .quiet]) &&
        (MemoryOp.clients 2 evictedAndBack s').any fun s'' =>
          decide ((s''.accessPcb 1).toOption = some 1) && s''.mastersIn 2 1 1024 &&
          Outcome.holds (s''.loadThrough 2 1 1024 .read) fun r => r.1.isSome) = true := by
    decide +kernel
  obtain ⟨⟨start, s⟩, hmapped, hcheck⟩ := (Option.any_eq_true _ _).mp hruns
  simp only [Bool.and_eq_true, decide_eq_true_eq, Option.any_eq_true] at hcheck
  obtain ⟨⟨hpcb₁, haccess⟩, s', hstore, hquiet, s'', hrun, ⟨hpcb₂, hmasters⟩, hloaded⟩ := hcheck
  obtain ⟨⟨_, t⟩, haccess, hok⟩ := Outcome.of_holds haccess
  obtain rfl := of_decide_eq_true hok
  obtain ⟨⟨b, t''⟩, hloaded, hb⟩ := Outcome.of_holds hloaded
  obtain ⟨b, rfl⟩ := Option.isSome_iff_exists.mp hb
  obtain ⟨hstart, htwice⟩ := mappedByTwo_mapped hmapped
  have hkeeps : ∀ op ∈ evictedAndBack, ¬ op.onRecord.Removes := by decide
  have hstored : Run (KeepingStep 2) s [.paging (.store 0 0 5#8)] s' :=
    MemoryOp.keeping_of_clients (by decide) hstore
  cases hstored with
  | cons hstored hdone =>
      cases hdone
      refine ⟨s'', t'', b, hloaded, mappings_share_stores hstart htwice
        (show 0 < firstMapping.size * pageSize by decide) (by decide) (Outcome.toOption_ok hpcb₁)
        haccess hstored (MemoryOp.keeping_of_clients hkeeps hrun) ?_ (Outcome.toOption_ok hpcb₂)
        (mastersIn_of_check hmasters) hloaded⟩
      intro c value' _ hmem
      simp [hquiet] at hmem

end Twice

end VirtualMemory

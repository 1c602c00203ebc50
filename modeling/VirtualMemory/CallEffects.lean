import VirtualMemory.Snapshots
import VirtualMemory.SharedMemory
import VirtualMemory.TableRoundTrip

/-!
# What the calls do to the pages

Every public call changes what the pages contain in one way only: pages are loaded, copied from
those of the source of a clone, or taken away with their segment or their process. All others
hold what they did.
-/

namespace VirtualMemory

open Function UserSpace KernelSystem PageTableL2Entry FlatMemory

/-- A range is decided by the offset of the page. -/
instance (h startAddr size : Nat) (v : LPage) : Decidable (InRange h startAddr size v) :=
  inferInstanceAs (Decidable (∃ i, i < size ∧ v = pageOf h (pageAddr startAddr i)))

namespace KernelOp

/-- The process that ends with a call. -/
def ends (s : KernelSystem) : KernelOp → Option Nat
  | .deleteProcess h => some h
  | .deleteSharedSegment name =>
      ((s.ssegMap.lookup name).bind s.sscbs).map SsegControlBlock.dummy
  | _ => none

/-- What the pages hold after a public call. Faults and accesses may also bring in pages that
were not created yet. -/
def Effect (s : KernelSystem) (op : KernelOp) (s' : KernelSystem) : Prop :=
  match op with
  | .createProcess | .createSegment .. | .createSharedSegment .. | .disconnectSharedSegment .. =>
      ∀ v, s'.holds v = s.holds v
  | .cloneProcess pid => ∃ source h, s.pcbVec.atIndex pid = .ok (some source) ∧
      s.cloneProcess pid = .ok (h, s') ∧
      (∀ e ∈ s.occupied source, ∀ i, i < e.getLength →
        s'.holds (entryPage e h i) = s.holds (entryPage e source i)) ∧
      ∀ v, (∀ e ∈ s.occupied source, ∀ i, i < e.getLength → v ≠ entryPage e h i) →
        s'.holds v = s.holds v
  | .loadSegment h startAddr size accType content =>
      s.loadSegment h startAddr size accType content = .ok (.trap, s') ∧
          (∀ v, s'.holds v = s.holds v) ∨
        s.loadSegment h startAddr size accType content = .ok (.ok, s') ∧
          (∀ i, i < size → s'.holds (pageOf h (pageAddr startAddr i)) = some (content i)) ∧
          ∀ v, ¬ InRange h startAddr size v → s'.holds v = s.holds v
  | .deleteSegment h startAddr =>
      s.deleteSegment h startAddr = .ok (.trap, s') ∧ (∀ v, s'.holds v = s.holds v) ∨
        s.deleteSegment h startAddr = .ok (.ok, s') ∧ ∃ n e, s.segmentEntry h n = some e ∧
          e.start = startAddr / 2 ^ 10 % 2 ^ 10 ∧ ∀ v, s'.holds v =
            if InRange h (e.start * pageSize) e.getLength v then none else s.holds v
  | .deleteProcess _ | .deleteSharedSegment _ => ∀ v, s'.holds v =
      if op.ends s = some v.proc then none else s.holds v
  | .pageFault .. | .access .. => ∀ v p, s.holds v = some p → s'.holds v = some p

end KernelOp

namespace KernelOp

variable {s s' : KernelSystem} {op : KernelOp} {h : Nat}

theorem ended_iff (hstep : s.registry.Step op s'.registry) (hends : op.ends s ≠ none) :
    (s'.pcbs h).isSome = true ↔ (s.pcbs h).isSome = true ∧ op.ends s ≠ some h := by
  have hremoved : ∀ {x : Nat}, s'.registry.process = update s.registry.process x none →
      ((s'.pcbs h).isSome = true ↔ (s.pcbs h).isSome = true ∧ some x ≠ some h) := by
    intro x hprocess
    have hat := congrArg (fun process => (process h).isSome) hprocess
    simp only [registry, Option.isSome_map] at hat
    rw [hat]
    by_cases hx : h = x
    · subst x
      simp
    · simp [update_of_ne hx, Ne.symm hx]
  cases op with
  | deleteProcess x =>
      obtain ⟨_, _, _, _, _, heq⟩ := hstep
      exact hremoved (congrArg Registry.process heq)
  | deleteSharedSegment name =>
      obtain ⟨hnone, _⟩ | ⟨b, dummy, n, r₁, _, hname, hb, ⟨_, _, _, _, _, hr₁⟩, _, heq⟩ := hstep
      · simp [ends, show s.ssegMap.lookup name = none from hnone] at hends
      · have hprocess : s'.registry.process = update s.registry.process dummy none := by
          rw [heq]
          exact congrArg Registry.process hr₁
        have hdummy : (deleteSharedSegment name).ends s = some dummy := by
          obtain ⟨sscb, hsscb, hpair⟩ := Option.map_eq_some_iff.mp hb
          simp [ends, show s.ssegMap.lookup name = some b from hname, hsscb,
            (Prod.mk.inj hpair).1]
        rw [hdummy]
        exact hremoved hprocess
  | createProcess | cloneProcess | createSegment | loadSegment | createSharedSegment
  | disconnectSharedSegment | deleteSegment | pageFault | access => exact absurd rfl hends

/-- A process goes on unless it is the one that ends. -/
theorem goes_on (hstep : s.registry.Step op s'.registry) (hnot : op.ends s ≠ some h)
    (hlive : (s.pcbs h).isSome = true) : (s'.pcbs h).isSome = true := by
  by_cases hends : op.ends s = none
  · have hlive' : (s.registry.process h).isSome = true := by simpa [registry] using hlive
    have hlive'' : (s'.registry.process h).isSome = true := by
      by_cases hremoves : op.Removes
      · cases op with
        | deleteProcess => cases hends
        | deleteSharedSegment name =>
            obtain ⟨_, heq⟩ | ⟨b, dummy, n, _, _, hname, hb, _⟩ := hstep
            · rwa [heq]
            · obtain ⟨sscb, hsscb, _⟩ := Option.map_eq_some_iff.mp hb
              simp [ends, show s.ssegMap.lookup name = some b from hname, hsscb] at hends
        | disconnectSharedSegment | deleteSegment => rwa [show s'.registry = _ from hstep]
        | createProcess | cloneProcess | createSegment | loadSegment | createSharedSegment
        | pageFault | access => exact hremoves.elim
      · exact hstep.live hremoves hlive'
    simpa [registry] using hlive''
  · exact (ended_iff hstep hends).mpr ⟨hlive, hnot⟩

/-- A process that there is was there, or is new. -/
theorem was_there (hstep : s.registry.Step op s'.registry) (hlive : (s'.pcbs h).isSome = true) :
    (s.pcbs h).isSome = true ∨ MadeSince s h := by
  have hlive' : (s'.registry.process h).isSome = true := by simpa [registry] using hlive
  obtain hlive | hnew := hstep.was_live hlive'
  · exact .inl (by simpa [registry] using hlive)
  · exact .inr hnew

end KernelOp

section Effects

variable {levels : Nat} {g g' : Layout} {s s' : KernelSystem} {op : KernelOp}
  {loose : KTable → Prop} {mine : Nat → Prop} {but : LPage → Prop}

theorem KernelInv.holds_none {v : LPage} (hinv : KernelInv g noHand noHand s) (hsound : g.Sound)
    (hall : s.AllMasters) (hnone : s.content (g.desc v) = none) : s.holds v = none := by
  cases hd : s.descriptor v with
  | none => rw [holds, hd, Option.bind_none]
  | some d =>
      obtain ⟨_, rfl⟩ := hall.desc hinv hsound hd
      rw [holds, hd, Option.bind_some, hnone]

/-- Pages that a call is not about hold what they did, unless their process ends. -/
theorem Carried.others {v : LPage} (hcarried : Carried loose mine but g s g' s')
    (hinv : KernelInv g noHand noHand s) (hsound : g.Sound) (hall : s.AllMasters)
    (hinv' : KernelInv g' noHand noHand s') (hall' : s'.AllMasters)
    (hstep : op.Step levels s s') (hnot : ¬ but v) (hends : op.ends s ≠ some v.proc) :
    s'.holds v = s.holds v :=
  hcarried.holds_eq hinv hsound hall hinv' hall' hnot
    (KernelOp.goes_on (KernelOp.step_registry hstep) hends)
    (KernelOp.was_there (KernelOp.step_registry hstep))

/-- Nothing appears or disappears if the pages that a call is about have no contents before and
after it. -/
theorem Carried.nothing (hcarried : Carried loose mine but g s g' s')
    (hinv : KernelInv g noHand noHand s) (hsound : g.Sound) (hall : s.AllMasters)
    (hinv' : KernelInv g' noHand noHand s') (hall' : s'.AllMasters)
    (hstep : op.Step levels s s') (hends : op.ends s = none)
    (hbut : ∀ v, but v → (g.desc v).getInseg = false ∧ s'.content (g'.desc v) = none)
    (v : LPage) : s'.holds v = s.holds v := by
  by_cases hv : but v
  · obtain ⟨hout, hnone⟩ := hbut v hv
    rw [hinv'.holds_none (hcarried.sound hsound) hall' hnone,
      hinv.holds_none hsound hall (hinv.content_outside hout)]
  · refine hcarried.others hinv hsound hall hinv' hall' hstep hv ?_
    rw [hends]
    exact fun heq => by cases heq

/-- Where a process ends, its pages go with it. -/
theorem Carried.ended (hcarried : Carried loose mine (fun _ => False) g s g' s')
    (hinv : KernelInv g noHand noHand s) (hsound : g.Sound) (hall : s.AllMasters)
    (hinv' : KernelInv g' noHand noHand s') (hall' : s'.AllMasters)
    (hstep : op.Step levels s s') (v : LPage) :
    s'.holds v = if op.ends s = some v.proc then none else s.holds v := by
  split
  · rename_i hends
    refine holds_of_gone (Option.not_isSome_iff_eq_none.mp fun hlive => ?_)
    have hiff := KernelOp.ended_iff (KernelOp.step_registry hstep) (h := v.proc) (by simp [hends])
    exact (hiff.mp hlive).2 hends
  · rename_i hends
    exact hcarried.others hinv hsound hall hinv' hall' hstep id hends

end Effects

namespace KernelInv

variable {levels : Nat} {g : Layout} {s s' : KernelSystem}

theorem createSegment_effect {h startAddr size : Nat} {accType : AccessType}
    (hinv : KernelInv g noHand noHand s) (hsound : g.Sound) (hall : s.AllMasters)
    (hall' : s'.AllMasters)
    (horderly : (KernelOp.createSegment h startAddr size accType).Orderly levels s)
    (hstep : (KernelOp.createSegment h startAddr size accType).Step levels s s') (v : LPage) :
    s'.holds v = s.holds v := by
  obtain ⟨⟨status, s₁⟩, hcreate, hret⟩ := Outcome.bind_ok hstep
  cases hret
  obtain ⟨m, hm⟩ := hinv.hasMaster_iff.mp (horderly.masters h rfl)
  have hclear := hinv.range_clear hsound hm (horderly.clears _ rfl) fun hrefuses =>
    Plain.newSegment_refused hinv hm hrefuses hcreate
  obtain ⟨g', hinv', _, _, ⟨_, hcarried, _⟩ | ⟨hok, _, hcarried, hpages⟩⟩ :=
    hinv.createSegment_inv hsound hm hclear hcreate
  · exact hcarried.nothing hinv hsound hall hinv' hall' hstep rfl (fun _ => False.elim) v
  · refine hcarried.nothing hinv hsound hall hinv' hall' hstep rfl (fun v hv => ?_) v
    refine ⟨hclear hok v hv, ?_⟩
    obtain ⟨i, hi, rfl⟩ := hv
    exact (hpages i hi).2

theorem loadSegment_effect {h startAddr size : Nat} {accType : AccessType}
    {content : Nat → Page} (hinv : KernelInv g noHand noHand s) (hsound : g.Sound)
    (hall : s.AllMasters) (hall' : s'.AllMasters)
    (horderly : (KernelOp.loadSegment h startAddr size accType content).Orderly levels s)
    (hstep : (KernelOp.loadSegment h startAddr size accType content).Step levels s s') :
    (KernelOp.loadSegment h startAddr size accType content).Effect s s' := by
  obtain ⟨⟨status, s₁⟩, hload, hret⟩ := Outcome.bind_ok hstep
  cases hret
  obtain ⟨m, hm⟩ := hinv.hasMaster_iff.mp (horderly.masters h rfl)
  have hclear := hinv.range_clear hsound hm (horderly.clears _ rfl) fun hrefuses =>
    Plain.newSegment_refused hinv hm hrefuses hload
  obtain ⟨g', hinv', hm', _, ⟨rfl, hcarried, _⟩ | ⟨rfl, _, hcarried, hpages⟩⟩ :=
    hinv.loadSegment_inv hsound hm hclear hload
  · exact .inl ⟨hload, hcarried.nothing hinv hsound hall hinv' hall' hstep rfl
      fun _ => False.elim⟩
  · refine .inr ⟨hload, fun i hi => ?_, fun v hv => ?_⟩
    · rw [hinv'.holds_eq (hcarried.sound hsound) (hinv'.hasMaster_iff.mpr ⟨m, hm'⟩)]
      exact (hpages i hi).2
    · exact hcarried.others hinv hsound hall hinv' hall' hstep hv fun heq => by cases heq

theorem deleteSegment_effect {h startAddr : Nat} (hinv : KernelInv g noHand noHand s)
    (hsound : g.Sound) (hall : s.AllMasters) (hall' : s'.AllMasters)
    (horderly : (KernelOp.deleteSegment h startAddr).Orderly levels s)
    (hstep : (KernelOp.deleteSegment h startAddr).Step levels s s') :
    (KernelOp.deleteSegment h startAddr).Effect s s' := by
  obtain ⟨⟨status, s₁⟩, hdelete, hret⟩ := Outcome.bind_ok hstep
  cases hret
  obtain ⟨m, hm⟩ := hinv.hasMaster_iff.mp (horderly.masters h rfl)
  obtain ⟨g', hinv', _, _, ⟨rfl, hcarried, _⟩ | ⟨rfl, n, hstart, hremoved, hcarried⟩⟩ :=
    hinv.deleteSegment_cases hsound hm hdelete
  · exact .inl ⟨hdelete, hcarried.nothing hinv hsound hall hinv' hall' hstep rfl
      fun _ => False.elim⟩
  · refine .inr ⟨hdelete, n, _, hinv.segmentEntry_eq (not_noMaster hm), hstart, fun v => ?_⟩
    split
    · rename_i hv
      exact hinv'.holds_none (hcarried.sound hsound) hall'
        (hinv'.content_outside (hremoved.pages v hv))
    · rename_i hv
      exact hcarried.others hinv hsound hall hinv' hall' hstep hv fun heq => by cases heq

end KernelInv

namespace KernelOp

variable {levels : Nat} {s s' : KernelSystem} {op : KernelOp}

theorem cloneProcess_effect {pid : Nat} (hcons : s.Consistent) (hall : s.AllMasters)
    (hall' : s'.AllMasters) (horderly : (cloneProcess pid).Orderly levels s)
    (hstep : (cloneProcess pid).Step levels s s') : (cloneProcess pid).Effect s s' := by
  obtain ⟨⟨h, s₁⟩, hclone, hret⟩ := Outcome.bind_ok hstep
  cases hret
  obtain ⟨found, hfound, hrest⟩ := Outcome.bind_ok hclone
  cases found with
  | none => cases hrest
  | some source =>
      have hmaster : s.HasMaster source := horderly.masters source (by
        simp [worksOn, subject, hfound, Except.toOption])
      obtain ⟨_, hcloned⟩ := cloneProcess_cloned hcons hall hfound hmaster
        (horderly.order source hfound) hclone hall'
      refine ⟨source, h, hfound, hclone, fun e he i hi => (hcloned.pages e he i hi).contents,
        fun v hv => ?_⟩
      by_cases hproc : v.proc = h
      · have hgone : s.holds v = none := holds_of_gone (by
          rw [hproc]
          exact hcloned.fresh)
        rw [hgone]
        cases hd : s'.descriptor v with
        | none => rw [holds, hd, Option.bind_none]
        | some d =>
            obtain ⟨g', hinv', hsound'⟩ := (hcons.step horderly hstep)
            have hout := hcloned.rest v d hproc hv hd
            obtain ⟨_, rfl⟩ := hall'.desc hinv' hsound' hd
            exact hinv'.holds_none hsound' hall' (hinv'.content_outside hout)
      · exact (hcloned.others v hproc).1

/-- Every orderly public call, in which no master table is evicted, does to the pages of all
processes what its effect says and nothing else. -/
theorem call_effect (hcons : s.Consistent) (hall : s.AllMasters) (horderly : op.Orderly levels s)
    (hstep : op.Step levels s s') (hall' : s'.AllMasters) : op.Effect s s' := by
  obtain ⟨g, hinv, hsound⟩ := hcons
  cases op with
  | createProcess =>
      obtain ⟨⟨h, s₁⟩, hcreate, hret⟩ := Outcome.bind_ok hstep
      cases hret
      obtain ⟨g', _, hinv', _, hcarried, _⟩ := hinv.createProcess_inv hsound hcreate
      exact hcarried.nothing hinv hsound hall hinv' hall' hstep rfl fun _ => False.elim
  | cloneProcess => exact cloneProcess_effect ⟨g, hinv, hsound⟩ hall hall' horderly hstep
  | createSegment => exact hinv.createSegment_effect hsound hall hall' horderly hstep
  | loadSegment => exact hinv.loadSegment_effect hsound hall hall' horderly hstep
  | createSharedSegment =>
      obtain ⟨g', _, _, _, hinv', hcarried, hbut, _⟩ :=
        hinv.createSharedSegment_carried hsound horderly hstep
      exact hcarried.nothing hinv hsound hall hinv' hall' hstep rfl fun v hv =>
        ⟨(hbut v hv).1, (hbut v hv).2.2⟩
  | deleteSegment => exact hinv.deleteSegment_effect hsound hall hall' horderly hstep
  | disconnectSharedSegment h name =>
      obtain ⟨⟨status, s₁⟩, hdisconnect, hret⟩ := Outcome.bind_ok hstep
      cases hret
      unfold KernelSystem.disconnectSharedSegment sharedSegmentFind at hdisconnect
      rw [show s.ssegMap.lookup name = none from horderly.order] at hdisconnect
      cases hdisconnect
      exact fun _ => rfl
  | deleteProcess h =>
      obtain ⟨g', hinv', hcarried⟩ :=
        hinv.deleteProcess_carried hsound (horderly.masters h rfl) horderly.order hstep
      exact hcarried.ended hinv hsound hall hinv' hall' hstep
  | deleteSharedSegment =>
      obtain ⟨g', _, _, hinv', hcarried⟩ :=
        hinv.deleteSharedSegment_carried hsound horderly hstep
      exact hcarried.ended hinv hsound hall hinv' hall' hstep
  | pageFault | access =>
      obtain ⟨g', _, hinv', hpassed⟩ := MemoryOp.call_passed hinv hsound id id horderly hstep
      intro v p hp
      have hmaster := hinv.hasMaster_of_holds hall hp
      have hmaster' := hinv'.hasMaster_of_live hall' (hpassed.objects.live hmaster)
      rw [hinv.holds_eq hsound hmaster] at hp
      obtain ⟨p', hp', hbytes⟩ := hpassed.bytes v p hp
      rw [hinv'.holds_eq (hpassed.sound hsound) hmaster', hp',
        Page.ext_byte fun off => hbytes off trivial]

/-- What a run of orderly calls does to the pages is what the effects of its calls say. -/
theorem effects_of_run {start : KernelSystem} {ops : List KernelOp} (hcons : start.Consistent)
    (hall : start.AllMasters)
    (hrun : Run (fun s (op : KernelOp) s' => op.Orderly levels s ∧ op.Step levels s s' ∧
      s'.AllMasters) start ops s) :
    (s.Consistent ∧ s.AllMasters) ∧ Run (fun s (op : KernelOp) s' => op.Effect s s') start ops s :=
  hrun.simulate (fun s => s.Consistent ∧ s.AllMasters) id
    (fun _ _ _ hI hstep => ⟨⟨hI.1.step hstep.1 hstep.2.1, hstep.2.2⟩,
      call_effect hI.1 hI.2 hstep.1 hstep.2.1 hstep.2.2⟩) ⟨hcons, hall⟩

/-- A page is loaded and its segment is removed. -/
theorem effects_of_run_removed : ∃ s s' : KernelSystem,
    s.memory (pageOf 0 0, 0) = some 5#8 ∧
      Run (fun s (op : KernelOp) s' => op.Effect s s') s [.deleteSegment 0 0] s' := by
  have hruns : storedPage.any (fun s => decide (s.memory (pageOf 0 0, 0) = some 5#8) &&
      (deleteSegment 0 0).keepsOrder s &&
      Outcome.holds ((deleteSegment 0 0).exec 1 s) fun s' => decide s'.AllMasters) = true := by
    decide +kernel
  obtain ⟨s, hstored, hcheck⟩ := (Option.any_eq_true _ _).mp hruns
  simp only [Bool.and_eq_true, decide_eq_true_eq] at hcheck
  obtain ⟨⟨hfive, horderly⟩, hexec⟩ := hcheck
  obtain ⟨s', hexec, hall'⟩ := Outcome.of_holds hexec
  obtain ⟨hcons, hall⟩ := MemoryOp.booted_consistent hstored
  have hstep : (deleteSegment 0 0).Step 1 s s' := hexec
  exact ⟨s, s', hfive, (effects_of_run hcons hall (.cons ⟨orderly_of_keepsOrder horderly, hstep,
    of_decide_eq_true hall'⟩ (.nil s'))).2⟩

end KernelOp

namespace MemoryOp

variable {levels : Nat} {s s' s'' t : KernelSystem} {ops : List MemoryOp}

/-- What a segment was loaded with is what its process loads from it, until it stores something
else there: pages that are evicted on the way, also while the others are still loaded, come back
as they were. -/
theorem loads_what_was_loaded {h pid addr startAddr size i : Nat} {accType type : AccessType}
    {content : Nat → Page} {value : BitVec 8} (hcons : s.Consistent) (hall : s.AllMasters)
    (horderly : (KernelOp.loadSegment h startAddr size accType content).Orderly levels s)
    (hcreate : s.loadSegment h startAddr size accType content = .ok (.ok, s'))
    (hall' : s'.AllMasters) (hi : i < size)
    (haddr : pageOf h addr = pageOf h (pageAddr startAddr i))
    (hrun : Run (fun s op s' => op.Step levels s s' ∧
      ∃ b, s'.memory (pageOf h addr, offsetOf addr) = some b) s' ops s'')
    (hpcb : s''.accessPcb pid = .ok h) (hmasters : MastersIn levels s'' h addr)
    (hload : s''.loadThrough levels pid addr type = .ok (some value, t)) :
    value = lastStored (pageOf h addr, offsetOf addr) ((content i).byte (offsetOf addr))
      (events levels s' ops) := by
  have hstep : (KernelOp.loadSegment h startAddr size accType content).Step levels s s' := by
    show (KernelOp.loadSegment h startAddr size accType content).exec levels s = .ok s'
    simp only [KernelOp.exec, hcreate, Outcome.ok_bind]
  have heffect := KernelOp.call_effect hcons hall horderly hstep hall'
  obtain ⟨htrap, _⟩ | ⟨_, hpages, _⟩ := heffect
  · cases hcreate.symm.trans htrap
  · refine loads_own_page (hcons.step horderly hstep) hall' hrun ?_ hpcb hmasters hload
    rw [memory, haddr, hpages i hi, Option.map_some]

/-- What a page is loaded with. -/
def sevens (i : Nat) : Page := fun _ => ⟨0#16, 7#8, BitVec.ofNat 8 i⟩

/-- The first of two pages that are loaded into the only frame is evicted and read. -/
theorem loads_what_was_loaded_evicted : ∃ (s' s'' t : KernelSystem) (value : BitVec 8),
    s''.loadThrough 1 0 2 .read = .ok (some value, t) ∧
      value = lastStored (pageOf 0 2, offsetOf 2) ((sevens 0).byte (offsetOf 2))
        (events 1 s' [.paging (.pageFault 0 0)]) := by
  have hruns : (booted 1 4 4 [0, 0, 0, 0] [.call .createProcess]).any (fun s =>
      (KernelOp.loadSegment 0 0 2 .read sevens).keepsOrder s &&
      Outcome.holds (s.loadSegment 0 0 2 .read sevens) fun r => decide (r.1 = .ok) &&
        decide r.2.AllMasters &&
        (follow 1 (fun s => (s.memory (pageOf 0 2, offsetOf 2)).isSome) r.2
          [.paging (.pageFault 0 0)]).any fun s'' =>
          decide ((s''.accessPcb 0).toOption = some 0) && s''.mastersIn 1 0 2 &&
          Outcome.holds (s''.loadThrough 1 0 2 .read) fun r => r.1.isSome) = true := by
    decide +kernel
  obtain ⟨s, hbooted, hcheck⟩ := (Option.any_eq_true _ _).mp hruns
  rw [Bool.and_eq_true] at hcheck
  obtain ⟨horderly, hload⟩ := hcheck
  obtain ⟨⟨status, s'⟩, hcreate, hok⟩ := Outcome.of_holds hload
  simp only [Bool.and_eq_true, decide_eq_true_eq, Option.any_eq_true] at hok
  obtain ⟨⟨rfl, hall'⟩, s'', hfollow, ⟨hpcb, hmasters⟩, hload⟩ := hok
  obtain ⟨⟨answer, t⟩, hload, hsome⟩ := Outcome.of_holds hload
  obtain ⟨value, rfl⟩ := Option.isSome_iff_exists.mp hsome
  obtain ⟨hcons, hall⟩ := booted_consistent hbooted
  exact ⟨s', s'', t, value, hload, loads_what_was_loaded hcons hall
    (KernelOp.orderly_of_keepsOrder horderly) hcreate hall' (by decide : 0 < 2) rfl
    ((run_of_follow hfollow).weaken fun _ _ _ hstep =>
      ⟨hstep.1, Option.isSome_iff_exists.mp hstep.2⟩) (Outcome.toOption_ok hpcb)
    (mastersIn_of_check hmasters) hload⟩

end MemoryOp

end VirtualMemory

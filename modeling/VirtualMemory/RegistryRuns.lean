import VirtualMemory.Registry

/-!
# Ids and segments over a run

Two processes never have one id, whatever was created and deleted before. The count of
shared segments agrees with the map and the vector until the first shared segment is deleted,
and never again: nothing takes one from it.
-/

namespace VirtualMemory

open Function Outcome Registry

/-- The registry of a kernel that has just been constructed. -/
def Registry.empty : Registry where
  process _ := none
  nextPcb := 0
  pcbVec := ConsVec.new
  ssegVec := ConsVec.new
  ssegMap := []
  block _ := none
  nextSscb := 0
  ssegCount := 0

theorem Registry.listed_empty : Registry.empty.Listed :=
  ⟨⟨[0], ConsVec.slots_new⟩, fun _ _ _ => nofun, fun _ _ => rfl⟩

theorem Registry.directory_empty : Registry.empty.Directory where
  slots := ⟨[0], ConsVec.slots_new⟩
  names := List.nodup_nil
  fresh := nofun
  housed := nofun
  apart := List.nodup_nil
  live n dummy hlive := by
    cases n <;> cases hlive

namespace KernelSystem

variable {s : KernelSystem}

theorem Booted.registry (hstart : s.Booted) : s.registry = Registry.empty := by
  obtain ⟨_, _, _, _, _, _, _, _, _, hboot⟩ := hstart
  unfold boot construct at hboot
  dsimp only at hboot
  split at hboot
  · cases hboot
  · cases hboot
    rfl

end KernelSystem

namespace KernelOp

variable {levels : Nat} {start s : KernelSystem} {ops : List KernelOp}

theorem listed_of_run (hstart : start.Booted)
    (hrun : Run (fun s op s' => op.Step levels s s') start ops s) : s.registry.Listed := by
  refine hrun.invariant (fun s => s.registry.Listed) ?_ (hstart.registry ▸ listed_empty)
  intro s op s' hr hstep
  exact hr.step (step_registry hstep)

theorem directory_of_run (hstart : start.Booted)
    (hrun : Run (fun s op s' => op.Step levels s s') start ops s) : s.registry.Directory := by
  refine hrun.invariant (fun s => s.registry.Directory) ?_ (hstart.registry ▸ directory_empty)
  intro s op s' hr hstep
  exact hr.step (step_registry hstep)

end KernelOp

/-- The slot vector is a map from live indices to data, from either constructor on, and so two
processes never have one id. -/
theorem slot_maps :
    (∀ (T : Type) (v₀ v : ConsVec T) (history : List (ConsVec.Call T × ConsVec.Response T)),
      (v₀ = ConsVec.new ∨ ∃ n, v₀ = ConsVec.ofCapacity n) → Run ConsVec.Step v₀ history v →
      v.IsSlotMap (ConsVec.latest history)) ∧
    ∀ (levels : Nat) (start s : KernelSystem) (ops : List KernelOp) (h h' : Nat)
      (p p' : KernelProcess), start.Booted →
      Run (fun s op s' => op.Step levels s s') start ops s →
      s.pcbs h = some p → s.pcbs h' = some p' → p.pid = p'.pid → h = h' := by
  refine ⟨fun T v₀ v history hv₀ hrun => ?_, fun levels start s ops h h' p p' hstart hrun hp hp'
    hpid => ?_⟩
  · have hnew : v₀ = ConsVec.new := by
      obtain rfl | ⟨n, rfl⟩ := hv₀
      · rfl
      · rfl
    rw [hnew] at hrun
    exact ConsVec.isSlotMap_of_run hrun
  · have hr := KernelOp.listed_of_run hstart hrun
    have hslot := hr.pids h p.pid p.sscb (s.registry_process hp)
    have hslot' := hr.pids h' p'.pid p'.sscb (s.registry_process hp')
    rw [← hpid, hslot] at hslot'
    exact Option.some.inj (Option.some.inj hslot')

/-- Two slots are taken and given back in turn, and two processes get two ids. -/
theorem slot_maps_two : ∃ (v : ConsVec Nat) (history : List (ConsVec.Call Nat ×
    ConsVec.Response Nat)) (s : KernelSystem) (p p' : KernelProcess),
    history.length = 6 ∧ v.IsSlotMap (ConsVec.latest history) ∧ v.atIndex 0 = .ok 9 ∧
      s.pcbs 1 = some p ∧ s.pcbs 2 = some p' ∧ p.pid ≠ p'.pid := by
  let calls : List (ConsVec.Call Nat × ConsVec.Response Nat) :=
    [(.insert 7, .index 0), (.insert 8, .index 1), (.markEmpty 0, .done), (.markEmpty 0, .done),
      (.atIndex 0, .threw .emptySlot), (.insert 9, .index 0)]
  have hcalls : Run ConsVec.Step (ConsVec.ofCapacity 3) calls
      ⟨-1, [⟨some 9, -2⟩, ⟨some 8, -2⟩]⟩ :=
    .cons rfl (.cons rfl (.cons rfl (.cons rfl (.cons rfl (.cons rfl (.nil _))))))
  have hruns : (KernelOp.runSmall KernelOp.anyStep 1 3 2 [] [.createProcess, .createProcess,
      .deleteProcess 0, .createProcess]).any (fun r => (r.2.pcbs 1).isSome &&
        (r.2.pcbs 2).isSome) = true := by
    decide +kernel
  obtain ⟨⟨start, s⟩, hr, hcheck⟩ := (Option.any_eq_true _ _).mp hruns
  simp only [Bool.and_eq_true, Option.isSome_iff_exists] at hcheck
  obtain ⟨⟨p, hp⟩, p', hp'⟩ := hcheck
  obtain ⟨hboot, hrun⟩ := KernelOp.runSmall_run hr
  refine ⟨_, calls, s, p, p', rfl, slot_maps.1 Nat _ _ calls (.inr ⟨3, rfl⟩) hcalls, rfl, hp, hp',
    fun hpid => ?_⟩
  cases slot_maps.2 2 start s _ 1 2 p p' (smallKernel_booted hboot)
    (hrun.weaken fun _ _ _ hstep => hstep.2) hp hp' hpid

namespace KernelSystem

/-- The live slots of `sseg_vec`. -/
def liveSegments (s : KernelSystem) : List Nat :=
  (List.range s.ssegVec.size).filter fun n => (s.ssegVec.atIndex n).isOk

/-- A name with the place and the dummy process that its control block gives it. -/
def IsSegment (s : KernelSystem) (name : String) (n dummy : Nat) : Prop :=
  ∃ b sscb, s.ssegMap.lookup name = some b ∧ s.sscbs b = some sscb ∧
    sscb.dummy = dummy ∧ sscb.ssegVecIndex = n

/-- The count, the map and the vector agree, and the limit is that of the live segments. -/
structure SegmentsCounted (s : KernelSystem) : Prop where
  count : s.ssegCount = s.ssegMap.length
  slots : s.ssegMap.length = s.liveSegments.length
  names : (s.ssegMap.map Prod.fst).Nodup
  named : ∀ name, (s.ssegMap.lookup name).isSome = true →
    ∃ n dummy, s.IsSegment name n dummy ∧ s.ssegVec.atIndex n = .ok dummy
  live : ∀ n dummy, s.ssegVec.atIndex n = .ok dummy → ∃! name, s.IsSegment name n dummy
  limit : ∀ size name accType, s.createDummy size name accType = .ok (.trap, s) ↔
    s.liveSegments.length = maxSharedSegments

end KernelSystem

/-- `delete_shared_segment` of a segment that there is. -/
def KernelOp.RemovesSegment (s : KernelSystem) : KernelOp → Prop
  | .deleteSharedSegment name => (s.ssegMap.lookup name).isSome = true
  | _ => False

namespace Registry

variable {r r' : Registry}

theorem Directory.isOk_iff (hr : r.Directory) {n : Nat} :
    (r.ssegVec.atIndex n).isOk = true ↔ (r.ssegVec.datum n).isSome = true := by
  obtain ⟨free, hslots⟩ := hr.slots
  cases hdatum : r.ssegVec.datum n with
  | some dummy => simp [hslots.atIndex_ok.mpr hdatum, Except.isOk, Except.toBool]
  | none =>
      cases hat : r.ssegVec.atIndex n with
      | ok dummy =>
          rw [hslots.atIndex_ok.mp hat] at hdatum
          cases hdatum
      | error halt => simp [Except.isOk, Except.toBool]

/-- The names are as many as the live slots, each being the place of one name. -/
theorem Directory.length_eq (hr : r.Directory) : r.ssegMap.length =
    ((List.range r.ssegVec.size).filter fun n => (r.ssegVec.atIndex n).isOk).length := by
  have hperm : (r.ssegMap.map fun entry => (r.block entry.2).map Prod.snd).Perm
      (((List.range r.ssegVec.size).filter fun n => (r.ssegVec.atIndex n).isOk).map some) := by
    refine (List.perm_ext_iff_of_nodup hr.apart ?_).mpr fun place => ?_
    · exact (List.nodup_range.filter _).map (Option.some_injective _)
    · simp only [List.mem_map, List.mem_filter, List.mem_range, hr.isOk_iff]
      constructor
      · rintro ⟨entry, hentry, rfl⟩
        obtain ⟨dummy, n, hb, hlive⟩ := hr.housed entry hentry
        refine ⟨n, ⟨Nat.lt_of_not_le fun hle => ?_, by simp [hlive]⟩, by rw [hb]; rfl⟩
        rw [ConsVec.datum_of_le hle] at hlive
        cases hlive
      · rintro ⟨n, ⟨_, hlive⟩, rfl⟩
        obtain ⟨dummy, hdummy⟩ := Option.isSome_iff_exists.mp hlive
        obtain ⟨entry, hentry, hb⟩ := hr.live n dummy hdummy
        exact ⟨entry, hentry, by rw [hb]; rfl⟩
  simpa using hperm.length_eq

theorem Directory.length_filter (hr : r.Directory) {name : String} {b : Nat}
    (hname : r.ssegMap.lookup name = some b) :
    (r.ssegMap.filter fun entry => decide (entry.1 ≠ name)).length + 1 = r.ssegMap.length := by
  have hone : r.ssegMap.countP (fun entry => entry.1 == name) = 1 := by
    have hcount : (r.ssegMap.map Prod.fst).count name = 1 :=
      List.count_eq_one_of_mem hr.names (List.mem_map_of_mem (hr.lookup_iff.mp hname))
    rwa [List.count_eq_countP, List.countP_map] at hcount
  have hsplit := List.length_eq_countP_add_countP (fun entry : String × Nat => entry.1 == name)
    (l := r.ssegMap)
  rw [hone, List.countP_eq_length_filter] at hsplit
  rw [hsplit, Nat.add_comm]
  congr 2
  refine List.filter_congr fun entry _ => ?_
  simp

/-- Whatever is removed stays counted. -/
theorem Directory.count_step {op : KernelOp} {removed : Nat} (hr : r.Directory)
    (hcount : r.ssegCount = r.ssegMap.length + removed) (hstep : r.Step op r') :
    r'.ssegCount = r'.ssegMap.length + removed ∧
        (∀ name, op = .deleteSharedSegment name → r.ssegMap.lookup name = none) ∨
      r'.ssegCount = r'.ssegMap.length + (removed + 1) ∧
        ∃ name, op = .deleteSharedSegment name ∧ (r.ssegMap.lookup name).isSome = true := by
  cases op with
  | createProcess =>
      obtain ⟨h, _, _, _, rfl⟩ := hstep
      exact .inl ⟨hcount, nofun⟩
  | cloneProcess pid =>
      obtain ⟨h, _, _, _, rfl⟩ := hstep
      exact .inl ⟨hcount, nofun⟩
  | deleteProcess h =>
      obtain ⟨_, _, _, _, _, rfl⟩ := hstep
      exact .inl ⟨hcount, nofun⟩
  | createSharedSegment h startAddr size name accType =>
      obtain rfl | ⟨_, hadds⟩ := hstep
      · exact .inl ⟨hcount, nofun⟩
      · obtain ⟨_, _, hmap, _, _, hcount'⟩ := hadds.records
        refine .inl ⟨?_, nofun⟩
        rw [hcount', hmap, hcount, List.length_cons, Nat.add_right_comm]
  | deleteSharedSegment name =>
      obtain ⟨hname, rfl⟩ | hremoves := hstep
      · refine .inl ⟨hcount, fun name' heq => ?_⟩
        cases heq
        exact hname
      · obtain ⟨b, _, _, hname, _, _, hmap, _, _, hcount'⟩ := hremoves.records
        refine .inr ⟨?_, name, rfl, by rw [hname]; rfl⟩
        rw [hcount', hmap, hcount, ← hr.length_filter hname, Nat.add_assoc, Nat.add_comm 1]
  | createSegment | loadSegment | disconnectSharedSegment | deleteSegment | pageFault | access =>
      cases hstep
      exact .inl ⟨hcount, nofun⟩

end Registry

namespace KernelSystem

variable {s : KernelSystem}

theorem isSegment_iff (hr : s.registry.Directory) {name : String} {n dummy : Nat} :
    s.IsSegment name n dummy ↔
      ∃ entry ∈ s.ssegMap, entry.1 = name ∧ s.registry.block entry.2 = some (dummy, n) := by
  constructor
  · rintro ⟨b, sscb, hname, hb, rfl, rfl⟩
    exact ⟨(name, b), hr.lookup_iff.mp hname, rfl, by simp [registry, hb]⟩
  · rintro ⟨⟨_, b⟩, hentry, rfl, hb⟩
    obtain ⟨sscb, hsscb, heq⟩ := Option.map_eq_some_iff.mp hb
    exact ⟨b, sscb, hr.lookup_iff.mpr hentry, hsscb, (Prod.mk.inj heq).1, (Prod.mk.inj heq).2⟩

theorem atIndex_iff (hr : s.registry.Directory) {n dummy : Nat} :
    s.ssegVec.atIndex n = .ok dummy ↔ s.ssegVec.datum n = some dummy := by
  obtain ⟨free, hslots⟩ := hr.slots
  exact hslots.atIndex_ok

/-- A segment is refused for the limit when the count says so. -/
theorem createDummy_refused {size : Nat} {name : String} {accType : AccessType} :
    s.createDummy size name accType = .ok (.trap, s) ↔ s.ssegCount = maxSharedSegments := by
  constructor
  · intro hcreate
    obtain ⟨hcount, _⟩ | hadds := createDummy_registry hcreate
    · exact hcount
    · obtain ⟨_, _, _, _, hnext, _⟩ := hadds.records
      exact absurd hnext.symm (Nat.succ_ne_self _)
  · intro hcount
    rw [createDummy, if_pos hcount]

theorem segmentsCounted (hr : s.registry.Directory) (hcount : s.ssegCount = s.ssegMap.length) :
    s.SegmentsCounted where
  count := hcount
  slots := hr.length_eq
  names := hr.names
  named name hname := by
    obtain ⟨b, hb⟩ := Option.isSome_iff_exists.mp hname
    have hentry := hr.lookup_iff.mp hb
    obtain ⟨dummy, n, hblock, hlive⟩ := hr.housed _ hentry
    exact ⟨n, dummy, (isSegment_iff hr).mpr ⟨_, hentry, rfl, hblock⟩, (atIndex_iff hr).mpr hlive⟩
  live n dummy hat := by
    obtain ⟨entry, hentry, hblock⟩ := hr.live n dummy ((atIndex_iff hr).mp hat)
    refine ⟨entry.1, (isSegment_iff hr).mpr ⟨entry, hentry, rfl, hblock⟩, fun name hname => ?_⟩
    obtain ⟨entry', hentry', rfl, hblock'⟩ := (isSegment_iff hr).mp hname
    rw [List.inj_on_of_nodup_map hr.apart hentry' hentry (by rw [hblock, hblock'])]
  limit size name accType := by
    rw [createDummy_refused, hcount, ← show s.ssegMap.length = s.liveSegments.length from
      hr.length_eq]

end KernelSystem

namespace KernelOp

variable {levels : Nat} {start s : KernelSystem} {ops : List KernelOp}

/-- The count is ahead of the map by the segments that were removed. -/
theorem count_of_run {removed : Nat}
    (hrun : Run (fun s op s' => op.Step levels s s') start ops s)
    (hr : start.registry.Directory) (hcount : start.ssegCount = start.ssegMap.length + removed) :
    ∃ more, s.ssegCount = s.ssegMap.length + (removed + more) ∧
      (more = 0 ↔
        Run (fun s op s' => ¬ op.RemovesSegment s ∧ op.Step levels s s') start ops s) := by
  induction hrun generalizing removed with
  | nil s => exact ⟨0, hcount, iff_of_true rfl (.nil s)⟩
  | @cons s₁ s₂ s₃ op ops hfirst hrest ih =>
      obtain ⟨hcount', hkept⟩ | ⟨hcount', name, rfl, hname⟩ :=
        hr.count_step hcount (step_registry hfirst)
      · obtain ⟨more, hmore, hiff⟩ := ih (hr.step (step_registry hfirst)) hcount'
        refine ⟨more, hmore, hiff.trans ⟨fun hrun => .cons ⟨?_, hfirst⟩ hrun, fun hrun => ?_⟩⟩
        · cases op with
          | deleteSharedSegment name =>
              have hnone := hkept name rfl
              rw [RemovesSegment, show s₁.ssegMap.lookup name = none from hnone]
              exact Bool.false_ne_true
          | _ => exact id
        · cases hrun with
          | cons hfirst' hrest' =>
              cases hfirst.symm.trans hfirst'.2
              exact hrest'
      · obtain ⟨more, hmore, _⟩ := ih (hr.step (step_registry hfirst)) hcount'
        refine ⟨more + 1, by rw [hmore, Nat.add_assoc removed, Nat.add_comm 1],
          iff_of_false (Nat.succ_ne_zero more) fun hrun => ?_⟩
        cases hrun with
        | cons hfirst' _ => exact hfirst'.1 hname

/-- The count of shared segments is right just as long as no segment was removed. -/
theorem segments_counted (hstart : start.Booted)
    (hrun : Run (fun s op s' => op.Step levels s s') start ops s) : s.SegmentsCounted ↔
      Run (fun s op s' => ¬ op.RemovesSegment s ∧ op.Step levels s s') start ops s := by
  have hempty := hstart.registry
  have hzero : start.ssegCount = start.ssegMap.length + 0 := by
    rw [show start.ssegCount = 0 from congrArg Registry.ssegCount hempty,
      show start.ssegMap = [] from congrArg Registry.ssegMap hempty, List.length_nil]
  obtain ⟨removed, hcount, hiff⟩ := count_of_run hrun (hempty ▸ directory_empty) hzero
  refine Iff.trans ⟨fun hs => ?_, fun hs => ?_⟩ hiff
  · have hlength := hs.count
    omega
  · exact KernelSystem.segmentsCounted (directory_of_run hstart hrun) (by omega)

/-- Two segments are made, and one of them is shared by two processes. -/
theorem segments_counted_two : ∃ s : KernelSystem, s.ssegMap.length = 2 ∧ s.SegmentsCounted := by
  have hruns : (runSmall (fun s op _ => match op with
      | .deleteSharedSegment name => (s.ssegMap.lookup name).isNone
      | _ => true) 1 9 2 [] [.createProcess, .createProcess,
      .createSharedSegment 0 0 1 "a" .readWrite, .createSharedSegment 0 1024 1 "b" .read,
      .createSharedSegment 1 0 1 "b" .read]).any (fun r => decide (r.2.ssegMap.length = 2)) =
        true := by
    decide +kernel
  obtain ⟨⟨start, s⟩, hr, hcheck⟩ := (Option.any_eq_true _ _).mp hruns
  obtain ⟨hboot, hrun⟩ := runSmall_run hr
  refine ⟨s, of_decide_eq_true hcheck, (segments_counted (smallKernel_booted hboot)
    (hrun.weaken fun _ _ _ hstep => hstep.2)).mpr (hrun.weaken fun s op s' hstep =>
      ⟨fun hremoves => ?_, hstep.2⟩)⟩
  cases op with
  | deleteSharedSegment name =>
      have hnone := hstep.1
      rw [RemovesSegment, Option.isSome_iff_ne_none] at hremoves
      exact hremoves (Option.isNone_iff_eq_none.mp hnone)
  | _ => exact hremoves

/-- A segment that was made and deleted is counted still. -/
theorem segments_not_counted : ¬ ∀ (start s : KernelSystem) (ops : List KernelOp), start.Booted →
    Run (fun s op s' => op.Step 2 s s') start ops s → s.SegmentsCounted := by
  intro hall
  have hruns : (runSmall anyStep 1 4 2 [] [.createProcess,
      .createSharedSegment 0 0 1 "a" .read, .deleteSharedSegment "a"]).any (fun r =>
        decide (r.2.ssegCount = 1) && decide (r.2.ssegMap.length = 0)) = true := by
    decide +kernel
  obtain ⟨⟨start, s⟩, hr, hcheck⟩ := (Option.any_eq_true _ _).mp hruns
  simp only [Bool.and_eq_true, decide_eq_true_eq] at hcheck
  obtain ⟨hboot, hrun⟩ := runSmall_run hr
  have hcount := (hall start s _ (smallKernel_booted hboot)
    (hrun.weaken fun _ _ _ hstep => hstep.2)).count
  omega

end KernelOp

end VirtualMemory

import VirtualMemory.TestAccesses

/-!
# Runs of the test

Each thread keeps that its segments are in place and that the bytes its test knows are in memory,
but for those that it has noted and still has to write. No other thread disturbs this, and so in
any order of the turns no assertion of the test fails, and a thread reads what its test expects.
-/

namespace VirtualMemory

open Function KernelSystem PageTableL2Entry FlatMemory

/-- The segments of a process under test: the first one is the code segment. -/
structure HasSegments (h : Nat) (ranges : List TestRange) (s : KernelSystem) : Prop where
  hasId : ∃ pid, s.HasId h pid
  master : s.HasMaster h
  unnamed : ∀ name n, ¬ s.IsSegment name n h
  fits : ∀ r ∈ ranges, r.start % pageSize = 0 ∧ r.start + pageSize * r.size ≤ 2 ^ 24
  code : ∀ r ∈ ranges.head?, ∀ a, r.Contains a → s.Allows h a .execute
  data : ∀ r ∈ ranges.tail, ∀ a, r.Contains a → s.Allows h a .read ∧ s.Allows h a .write
  covered : ∀ v, v.proc = h → s.InSegment v → ∃ r ∈ ranges, ∃ a, r.Contains a ∧ v = pageOf h a

theorem HasSegments.keep {h : Nat} {ranges : List TestRange} {s s' : KernelSystem}
    {bytes : LByte → Prop} (hsegments : HasSegments h ranges s)
    (hspares : s.SparesProcess h bytes s') : HasSegments h ranges s' where
  hasId := hsegments.hasId.imp hspares.hasId
  master := hspares.master
  unnamed := hspares.unnamed
  fits := hsegments.fits
  code r hr a ha := hspares.allows a _ (hsegments.code r hr a ha)
  data r hr a ha := ⟨hspares.allows a _ (hsegments.data r hr a ha).1,
    hspares.allows a _ (hsegments.data r hr a ha).2⟩
  covered v hv hinside := hsegments.covered v hv (hspares.inside v hv hinside)

/-- Addresses of the address space that differ are those of different bytes. -/
theorem ownByte_inj {h a a' : Nat} (ha : a < 2 ^ 24) (ha' : a' < 2 ^ 24)
    (hsame : ownByte h a = ownByte h a') : a = a' := by
  have hslot : a / 2 ^ 18 % 64 = a' / 2 ^ 18 % 64 :=
    congrArg (fun c : LByte => c.1.slot.val) hsame
  have hcell : a / 2 ^ 10 % 256 = a' / 2 ^ 10 % 256 :=
    congrArg (fun c : LByte => c.1.cell.val) hsame
  have hoffset : a % 1024 = a' % 1024 := congrArg (fun c : LByte => c.2.val) hsame
  omega

/-- What holds of a thread between two turns. What its test has marked, and does not still have to
write, is in memory. -/
structure TestThread.Sound (x : TestThread) (s : KernelSystem) : Prop where
  segments : HasSegments x.test.process x.test.ranges s
  allows : ∀ e ∈ x.pending, s.Allows x.test.process e.address e.accessType
  expects : ∀ e ∈ x.pending, x.test.Expects e
  kinds : ∀ e ∈ x.pending, e.accessType ≠ .readWrite
  apart : (x.pending.map (·.address)).Nodup
  known : ∀ a b, x.test.recorded a = some (b, true) →
    (∀ e ∈ x.pending, e.address = a → e.accessType ≠ .write) →
      s.memory (ownByte x.test.process a) = some b

/-- The processes but `h` find what they relied on. -/
structure KernelSystem.LeavesOthers (s : KernelSystem) (h : Nat) (s' : KernelSystem) :
    Prop where
  ready : s'.Ready
  registry : s'.registry = s.registry
  others : ∀ y, y ≠ h → s.HasMaster y → (∀ name n, ¬ s.IsSegment name n y) →
    s.SparesProcess y (fun _ => True) s'

theorem KernelSystem.Unseen.leavesOthers {s s' : KernelSystem} {bytes : LByte → Prop} {h : Nat}
    (hunseen : s.Unseen bytes s') (hbytes : ∀ c : LByte, c.1.proc ≠ h → bytes c) :
    s.LeavesOthers h s' where
  ready := hunseen.ready
  registry := hunseen.registry
  others y hy hmaster hunnamed := (hunseen.spares y hmaster hunnamed).mono fun c hc _ =>
    hbytes c (hc ▸ hy)

namespace TestThread.Sound

variable {levels : Nat} {s s' : KernelSystem} {x : TestThread} {e : TestAccess}
  {rest : List TestAccess}

theorem keep (hx : x.Sound s) (hspares : s.SparesProcess x.test.process (fun _ => True) s') :
    x.Sound s' :=
  { hx with
    segments := hx.segments.keep hspares
    allows := fun e he => hspares.allows _ _ (hx.allows e he)
    known := fun a b hrecorded hunwritten =>
      hspares.memory _ b ⟨rfl, trivial⟩ (hx.known a b hrecorded hunwritten) }

/-- What a test has recorded lies in the address space. -/
theorem recorded_lt {a : Nat} {expected : BitVec 8 × Bool} (hx : x.Sound s)
    (hrecorded : x.test.recorded a = some expected) : a < 2 ^ 24 := by
  obtain ⟨r, hr, ha⟩ := ProcessTest.recorded_isSome.mp (Option.isSome_of_eq_some hrecorded)
  exact Nat.lt_of_lt_of_le ha.2 (hx.segments.fits r hr).2

/-- A known byte that is not written by a later access of the instruction is in memory when it is
read. -/
theorem memory_of_known {b : BitVec 8} (hx : x.Sound s) (hpending : x.pending = e :: rest)
    (hnot : e.accessType ≠ .write) (hrecorded : x.test.recorded e.address = some (b, true)) :
    s.memory (ownByte x.test.process e.address) = some b := by
  have hapart := hx.apart
  rw [hpending, List.map_cons, List.nodup_cons] at hapart
  refine hx.known e.address b hrecorded fun e' he' heq => ?_
  rw [hpending] at he'
  obtain rfl | hlater := List.mem_cons.mp he'
  · exact hnot
  · exact absurd (heq ▸ List.mem_map_of_mem hlater) hapart.1

/-- The thread after an access, if its test and its process are as they have to be. -/
theorem next {test : ProcessTest} {bytes : LByte → Prop} (hx : x.Sound s)
    (hpending : x.pending = e :: rest) (hprocess : test.process = x.test.process)
    (hranges : test.ranges = x.test.ranges)
    (hsame : ∀ a, a ≠ e.address → test.recorded a = x.test.recorded a)
    (hspares : s.SparesProcess x.test.process bytes s')
    (hbytes : ∀ a, a < 2 ^ 24 → a ≠ e.address → bytes (ownByte x.test.process a))
    (hknown : ∀ b, test.recorded e.address = some (b, true) →
      s'.memory (ownByte x.test.process e.address) = some b) :
    (⟨test, rest⟩ : TestThread).Sound s' := by
  have hapart := hx.apart
  rw [hpending, List.map_cons, List.nodup_cons] at hapart
  have hlater : ∀ e' ∈ rest, e' ∈ x.pending := fun e' he' => hpending ▸ List.mem_cons_of_mem _ he'
  refine ⟨?_, fun e' he' => ?_, fun e' he' => ?_, fun e' he' => hx.kinds e' (hlater e' he'),
    hapart.2, fun a b hrecorded hunwritten => ?_⟩
  · rw [hprocess, hranges]
    exact hx.segments.keep hspares
  · rw [hprocess]
    exact hspares.allows _ _ (hx.allows e' (hlater e' he'))
  · obtain ⟨marked, hrecorded⟩ := hx.expects e' (hlater e' he')
    refine ⟨marked, (hsame _ fun heq => hapart.1 ?_).trans hrecorded⟩
    exact heq ▸ List.mem_map_of_mem he'
  · rw [hprocess]
    by_cases ha : a = e.address
    · subst a
      exact hknown b hrecorded
    · rw [hsame a ha] at hrecorded
      refine hspares.memory _ b ⟨rfl, hbytes a (hx.recorded_lt hrecorded) ha⟩
        (hx.known a b hrecorded fun e' he' heq => ?_)
      rw [hpending] at he'
      obtain rfl | hlate := List.mem_cons.mp he'
      · exact absurd heq.symm ha
      · exact hunwritten e' hlate heq

/-- An access of a thread fails no assertion, and reads what the test knows to be there. -/
theorem doAccess (hx : x.Sound s) (hready : s.Ready) (hpending : x.pending = e :: rest) :
    Outcome.Meets (· = TestHalt.assertion) (fun r => r.2.1.AllMasters →
      ((⟨r.2.2, rest⟩ : TestThread).Sound r.2.1 ∧ s.LeavesOthers x.test.process r.2.1 ∧
        r.2.2.process = x.test.process) ∧
      ∀ value b, r.1 = some value → x.test.recorded e.address = some (b, true) → value = b)
      (s.doAccess levels x.test e) := by
  have he : e ∈ x.pending := hpending ▸ List.mem_cons_self
  obtain ⟨pid, hid⟩ := hx.segments.hasId
  have hmaster := hx.segments.master
  have hunnamed := hx.segments.unnamed
  have hreads : e.accessType = .read ∨ e.accessType = .execute → _ :=
    doAccess_reads levels hready hid hmaster hunnamed (hx.allows e he)
      (hx.expects e he)
  by_cases hwrite : e.accessType = .write
  · refine (doAccess_writes levels hready hid hmaster hunnamed (hx.allows e he) (hx.expects e he)
      hwrite).post fun r hr hall => ?_
    obtain ⟨value, s', test⟩ := r
    obtain ⟨hnone, hchanged, hdone⟩ := hr
    obtain ⟨hunseen, hstored⟩ := hdone hall
    have hlt := hx.recorded_lt (hx.expects e he).choose_spec
    refine ⟨⟨hx.next hpending hchanged.process hchanged.ranges (fun a ha => ?_)
      (hunseen.spares _ hmaster hunnamed) (fun a ha hne hsame => hne (ownByte_inj ha hlt hsame))
      fun b hrecorded => ?_, hunseen.leavesOthers fun c hc heq => ?_, hchanged.process⟩, ?_⟩
    · rw [hchanged.recorded, if_neg ha]
    · rw [hchanged.recorded, if_pos rfl] at hrecorded
      cases hrecorded
      exact hstored
    · rw [heq] at hc
      exact hc rfl
    · intro value b hvalue
      cases hnone.symm.trans hvalue
  · have htype : e.accessType = .read ∨ e.accessType = .execute := by
      have hkind := hx.kinds e he
      cases htype : e.accessType with
      | read => exact .inl rfl
      | execute => exact .inr rfl
      | write => exact absurd htype hwrite
      | readWrite => exact absurd htype hkind
    refine (hreads htype).post fun r hr hall => ?_
    obtain ⟨value, s', test⟩ := r
    obtain ⟨rfl, value, rfl, hdone⟩ := hr
    obtain ⟨hunseen, hfound⟩ := hdone hall
    have hspares := hunseen.spares _ hmaster hunnamed
    refine ⟨⟨hx.next hpending rfl rfl (fun _ _ => rfl) hspares (fun _ _ _ => trivial)
      fun b hrecorded => ?_, hunseen.leavesOthers fun _ _ => trivial, rfl⟩, ?_⟩
    · exact hspares.memory _ b ⟨rfl, trivial⟩ (hx.memory_of_known hpending hwrite hrecorded)
    · intro value' b hvalue hrecorded
      cases hvalue
      exact hfound b (hx.memory_of_known hpending hwrite hrecorded)

end TestThread.Sound

/-- A process with a new segment: its other pages and all other processes are as they were. -/
structure KernelSystem.AddsRange (s : KernelSystem) (h startAddr size : Nat)
    (accType : AccessType) (content : Nat → Option Page) (s' : KernelSystem) : Prop where
  leaves : s.LeavesOthers h s'
  master : s'.HasMaster h
  unnamed : ∀ name n, ¬ s'.IsSegment name n h
  allows : ∀ a type, s.Allows h a type → s'.Allows h a type
  new : ∀ i, i < size → ∀ a type, pageOf h a = pageOf h (pageAddr startAddr i) →
    accessIsOk type.code accType.code = true → s'.Allows h a type
  inside : ∀ v, v.proc = h → s'.InSegment v → s.InSegment v ∨ InRange h startAddr size v
  memory : Keeps (fun _ => True) s.memory s'.memory
  contents : ∀ i, i < size → ∀ p, content i = some p → ∀ off,
    s'.memory (pageOf h (pageAddr startAddr i), off) = some (p.byte off)

/-- The pages of a clear range are in no segment. -/
theorem KernelInv.outside_of_clear {h startAddr size m : Nat} {s : KernelSystem} {g : Layout}
    (hinv : KernelInv g noHand noHand s) (hsound : g.Sound) (hm : g.place (.master h) = .frame m)
    (hclear : s.Clear h startAddr size) (v : LPage) (hv : InRange h startAddr size v) :
    (g.desc v).getInseg = false := by
  obtain ⟨i, hi, rfl⟩ := hv
  have hnot := hclear i hi
  rwa [hinv.inSegment_iff hsound (v := pageOf h (pageAddr startAddr i)) hm,
    Bool.not_eq_true] at hnot

theorem KernelInv.addsRange {levels h ordinal startAddr size : Nat} {accType : AccessType}
    {content : Nat → Option Page} {op : KernelOp} {s s' : KernelSystem} {g g' : Layout}
    (hready : s.Ready) (hinv : KernelInv g noHand noHand s) (hsound : g.Sound)
    (hmaster : s.HasMaster h) (hunnamed : ∀ name n, ¬ s.IsSegment name n h)
    (hclear : s.Clear h startAddr size) (hstep : KeepingStep levels s (.call op) s')
    (hrange : op.newRange = some ⟨h, ordinal, startAddr, size⟩)
    (hregistry : s'.registry = s.registry) (hinv' : KernelInv g' noHand noHand s')
    (hcreated : SegmentCreated g s h ordinal startAddr size accType content g' s' .ok) :
    s.AddsRange h startAddr size accType content s' := by
  obtain ⟨htrap, _⟩ | ⟨_, _, hcarried, hpages⟩ := hcreated
  · cases htrap
  have hready' := MemoryOp.ready_step hready hstep.1.1 hstep.1.2
  have hmaster' := MemoryOp.hasMaster_step hready hstep.1.1 hstep.2 hmaster
  have hsound' := hcarried.sound hsound
  obtain ⟨m, hm⟩ := hinv.hasMaster_iff.mp hmaster
  obtain ⟨m', hm'⟩ := hinv'.hasMaster_iff.mp hmaster'
  have hquiet : (MemoryOp.call op).event levels s = .quiet := MemoryOp.event_call hstep.2
  have hmemory := (hstep.1.1.memory hready.consistent hready.masters).2
  rw [hquiet] at hmemory
  have hout := hinv.outside_of_clear hsound hm hclear
  refine ⟨⟨hready', hregistry, fun y hy hmastery hunnamedy => ?_⟩, hmaster',
    hready.unnamed_step hstep.1.1 hmaster hunnamed, fun a type hallows => ?_,
    fun i hi a type ha hallowed => ?_, fun v hv hinside => ?_, hmemory, fun i hi p hp off => ?_⟩
  · refine .of_step hready hmastery hunnamedy hstep (fun pid hid => hid.congr hregistry) ?_
      fun c value _ _ heq => ?_
    · rintro (⟨r, hr, hproc⟩ | hmade)
      · cases hrange.symm.trans hr
        exact hy hproc.symm
      · exact absurd hmade (hready.not_madeSince hmastery)
    · cases hquiet.symm.trans heq
  · rw [hinv.allows_iff hsound hm] at hallows
    have hrights := (hcarried.pages (pageOf h a) fun hv =>
      absurd hallows.1 (by simp [hout _ hv])).sameRights
    rw [hinv'.allows_iff hsound' hm', hrights.inseg, hrights.shared, hrights.access]
    exact hallows
  · obtain ⟨hnew, _⟩ := hpages i hi
    rw [hinv'.allows_iff hsound' hm', ha, hnew.access]
    exact ⟨hnew.inseg, hnew.shared, hallowed⟩
  · subst hv
    by_cases hv : InRange v.proc startAddr size v
    · exact .inr hv
    · rw [hinv'.inSegment_iff hsound' hm'] at hinside
      rw [hinv.inSegment_iff hsound hm, ← (hcarried.pages v hv).sameRights.inseg]
      exact .inl hinside
  · exact hinv'.memory_of_content hsound' (v := pageOf h (pageAddr startAddr i)) hmaster'
      ((hpages i hi).2.trans hp)

section Calls

variable {h startAddr size : Nat} {accType : AccessType} {s s' : KernelSystem} {op : KernelOp}

/-- A call that makes a segment in a clear range of a process that is no dummy. -/
theorem keepingStep_segment {ordinal : Nat} (hmaster : s.HasMaster h)
    (hunnamed : ∀ name n, ¬ s.IsSegment name n h) (hclear : s.Clear h startAddr size)
    (hworks : op.worksOn s = some h) (hrange : op.newRange = some ⟨h, ordinal, startAddr, size⟩)
    (horder : op.KeepsOrder 0 s) (hkeeps : ¬ op.Removes) (hexec : op.exec 0 s = .ok s')
    (hall : s'.AllMasters) : KeepingStep 0 s (.call op) s' := by
  refine ⟨⟨⟨⟨fun x hx => ?_, fun r hr => ?_, horder⟩, hexec, hall⟩, fun r hr => ?_⟩, hkeeps⟩
  · rw [hworks] at hx
    cases hx
    exact hmaster
  · rw [hrange] at hr
    cases hr
    exact .inr hclear
  · cases hrange.symm.trans hr
    exact hunnamed

theorem createSegment_addsRange (hready : s.Ready) (hmaster : s.HasMaster h)
    (hunnamed : ∀ name n, ¬ s.IsSegment name n h) (hclear : s.Clear h startAddr size)
    (hcreate : s.createSegment h startAddr size accType = .ok (.ok, s')) (hall : s'.AllMasters) :
    s.AddsRange h startAddr size accType (fun _ => none) s' := by
  have hstep : KeepingStep 0 s (.call (.createSegment h startAddr size accType)) s' :=
    keepingStep_segment hmaster hunnamed hclear rfl rfl trivial id
      (by simp only [KernelOp.exec, hcreate, Outcome.ok_bind]) hall
  obtain ⟨g, hinv, hsound⟩ := hready.consistent
  obtain ⟨m, hm⟩ := hinv.hasMaster_iff.mp hmaster
  obtain ⟨g', hinv', _, hobjects, hcreated⟩ := hinv.createSegment_inv hsound hm
    (fun _ => hinv.outside_of_clear hsound hm hclear) hcreate
  exact hinv.addsRange hready hsound hmaster hunnamed hclear hstep rfl hobjects.registry hinv'
    hcreated

theorem loadSegment_addsRange {content : Nat → Page} (hready : s.Ready) (hmaster : s.HasMaster h)
    (hunnamed : ∀ name n, ¬ s.IsSegment name n h) (hclear : s.Clear h startAddr size)
    (hload : s.loadSegment h startAddr size accType content = .ok (.ok, s'))
    (hall : s'.AllMasters) :
    s.AddsRange h startAddr size accType (fun i => some (content i)) s' := by
  have hstep : KeepingStep 0 s (.call (.loadSegment h startAddr size accType content)) s' :=
    keepingStep_segment hmaster hunnamed hclear rfl rfl trivial id
      (by simp only [KernelOp.exec, hload, Outcome.ok_bind]) hall
  obtain ⟨g, hinv, hsound⟩ := hready.consistent
  obtain ⟨m, hm⟩ := hinv.hasMaster_iff.mp hmaster
  obtain ⟨g', hinv', _, hobjects, hcreated⟩ := hinv.loadSegment_inv hsound hm
    (fun _ => hinv.outside_of_clear hsound hm hclear) hload
  exact hinv.addsRange hready hsound hmaster hunnamed hclear hstep rfl hobjects.registry hinv'
    hcreated

end Calls

namespace ProcessTest

/-- A range of whole pages in the address space that meets no segment of the test. -/
def Fits (t : ProcessTest) (address size : Nat) : Prop :=
  address % pageSize = 0 ∧ address + pageSize * size ≤ 2 ^ 24 ∧
    ∀ r ∈ t.ranges, r.start + pageSize * r.size ≤ address ∨ address + pageSize * size ≤ r.start

theorem pageAddr_eq {address size i : Nat} (hfits : address + pageSize * size ≤ 2 ^ 24)
    (hi : i < size) : pageAddr address i = address + i * pageSize := by
  simp only [pageAddr, pageSize] at hfits ⊢
  omega

/-- An address of a range is on the page that the range has there. -/
theorem page_of_contains {r : TestRange} {h a : Nat} (haligned : r.start % pageSize = 0)
    (hfits : r.start + pageSize * r.size ≤ 2 ^ 24) (ha : r.Contains a) :
    (a - r.start) / pageSize < r.size ∧
      pageOf h a = pageOf h (pageAddr r.start ((a - r.start) / pageSize)) := by
  obtain ⟨hle, hlt⟩ := ha
  have hi : (a - r.start) / pageSize < r.size := by
    simp only [pageSize] at hlt ⊢
    omega
  refine ⟨hi, ?_⟩
  rw [pageAddr_eq hfits hi]
  simp only [pageOf, slotOf, cellOf, ptl1Slot, ptl2Slot, LPage.mk.injEq, Fin.mk.injEq, true_and,
    pageSize] at haligned hfits hi ⊢
  omega

/-- The segments of the constructor fit, one after the other. -/
theorem fits_segmentAddress {t : ProcessTest} {n : Nat} (hn : n ≤ 10)
    (hranges : t.ranges = (List.range n).map fun i => ⟨segmentAddress i, 100⟩) :
    t.Fits (segmentAddress n) 100 := by
  rw [Fits, hranges, segmentAddress_eq]
  refine ⟨Nat.mul_mod_right .., ?_, fun r hr => ?_⟩
  · simp only [pageSize]
    omega
  · obtain ⟨i, hi, rfl⟩ := List.mem_map.mp hr
    have hlt := List.mem_range.mp hi
    dsimp only
    rw [segmentAddress_eq, ← Nat.mul_add]
    exact .inl (Nat.mul_le_mul_left _ (by omega))

/-- A range that fits is clear. -/
theorem clear_of_fits {t : ProcessTest} {s : KernelSystem} {h address size : Nat}
    (hsegments : HasSegments h t.ranges s) (hfits : t.Fits address size) :
    s.Clear h address size := by
  obtain ⟨haligned, hlt, hapart⟩ := hfits
  intro i hi hinside
  obtain ⟨r, hr, a, ⟨hle, hlt'⟩, hsame⟩ := hsegments.covered _ rfl hinside
  obtain ⟨_, hfits'⟩ := hsegments.fits r hr
  have hslot : pageAddr address i / 2 ^ 18 % 64 = a / 2 ^ 18 % 64 :=
    congrArg (fun v : LPage => v.slot.val) hsame
  have hcell : pageAddr address i / 2 ^ 10 % 256 = a / 2 ^ 10 % 256 :=
    congrArg (fun v : LPage => v.cell.val) hsame
  obtain habove | hbelow := hapart r hr <;>
  · rw [pageAddr_eq hlt hi] at hslot hcell
    simp only [pageSize] at *
    omega

end ProcessTest

/-- The segments of a process with one more. -/
theorem HasSegments.add {h : Nat} {ranges : List TestRange} {r : TestRange} {s s' : KernelSystem}
    {accType : AccessType} {content : Nat → Option Page} (hsegments : HasSegments h ranges s)
    (hadds : s.AddsRange h r.start r.size accType content s')
    (hfits : r.start % pageSize = 0 ∧ r.start + pageSize * r.size ≤ 2 ^ 24)
    (hcode : ranges = [] → accessIsOk AccessType.execute.code accType.code = true)
    (hdata : ranges ≠ [] → accessIsOk AccessType.read.code accType.code = true ∧
      accessIsOk AccessType.write.code accType.code = true) :
    HasSegments h (ranges ++ [r]) s' := by
  have hnew : ∀ a, r.Contains a → ∀ type : AccessType,
      accessIsOk type.code accType.code = true → s'.Allows h a type := fun a ha type hallowed => by
    obtain ⟨hi, hpage⟩ := ProcessTest.page_of_contains (h := h) hfits.1 hfits.2 ha
    exact hadds.new _ hi a type hpage hallowed
  refine ⟨hsegments.hasId.imp fun _ hid => hid.congr hadds.leaves.registry, hadds.master,
    hadds.unnamed, fun r' hr' => ?_, fun r' hr' a ha => ?_, fun r' hr' a ha => ?_,
    fun v hv hinside => ?_⟩
  · obtain hold | hlast := List.mem_append.mp hr'
    · exact hsegments.fits r' hold
    · rw [List.mem_singleton.mp hlast]
      exact hfits
  · cases ranges with
    | nil =>
        cases hr'
        exact hnew a ha .execute (hcode rfl)
    | cons first rest => exact hadds.allows a _ (hsegments.code r' hr' a ha)
  · cases ranges with
    | nil => cases hr'
    | cons first rest =>
        obtain hold | hlast := List.mem_append.mp (show r' ∈ rest ++ [r] from hr')
        · have hallows := hsegments.data r' hold a ha
          exact ⟨hadds.allows a _ hallows.1, hadds.allows a _ hallows.2⟩
        · rw [List.mem_singleton.mp hlast] at ha
          obtain ⟨hread, hwrite⟩ := hdata (List.cons_ne_nil _ _)
          exact ⟨hnew a ha .read hread, hnew a ha .write hwrite⟩
  · obtain hold | ⟨i, hi, rfl⟩ := hadds.inside v hv hinside
    · obtain ⟨r', hr', a, ha, heq⟩ := hsegments.covered v hv hold
      exact ⟨r', List.mem_append_left _ hr', a, ha, heq⟩
    · refine ⟨r, List.mem_append_right _ List.mem_cons_self, _, ?_, rfl⟩
      rw [ProcessTest.pageAddr_eq hfits.2 hi]
      simp only [TestRange.Contains, pageSize]
      omega

theorem getByte_four (a b c d : BitVec 8) (k : Fin 4) :
    getByte ⟨twoBytes a b, c, d⟩ k = [a, b, c, d][k] := by
  fin_cases k
  · exact lowByte_twoBytes _ _
  · exact highByte_twoBytes _ _
  · rfl
  · rfl

theorem byte_bufferPage (buffer : Nat → BitVec 8) (i : Nat) (off : Fin 1024) :
    (bufferPage buffer i).byte off = buffer (i * pageSize + off) := by
  rw [Page.byte, bufferPage, getByte_four]
  generalize hk : (⟨off.val % 4, by omega⟩ : Fin 4) = k
  have hval : off.val % 4 = k.val := congrArg Fin.val hk
  have hoff : i * pageSize + off.val = i * pageSize + 4 * (off.val / 4) + k.val := by omega
  rw [hoff]
  generalize i * pageSize + 4 * (off.val / 4) = start
  fin_cases k <;> rfl

namespace ProcessTest

theorem recorded_append {t : ProcessTest} {m : CheckedSegment} (address : Nat) :
    ({ t with checkMemory := t.checkMemory ++ [m] } : ProcessTest).recorded address =
      (t.recorded address).or (if m.Contains address then
        some (m.first (address - m.start), m.second (address - m.start)) else none) := by
  simp only [recorded, List.find?_append, Option.map_or, List.find?_singleton, decide_eq_true_eq]
  split <;> rfl

end ProcessTest

/-- What the constructor and `run` see to before a thread does something: the code segment comes
first, the segments are apart, and an instruction has addresses of them. That it has none twice
`run` leaves to chance (`instruction_repeats`). -/
def ThreadOp.Proceeds (x : TestThread) : ThreadOp → Prop
  | .addCodeSegment address size =>
      x.test.checkMemory = [] ∧ x.pending = [] ∧ x.test.Fits address size
  | .addDataSegment address size _ =>
      x.test.checkMemory ≠ [] ∧ x.pending = [] ∧ x.test.Fits address size
  | .instruction _ code numbers _ =>
      x.pending = [] ∧ (code :: numbers).Nodup ∧ (∃ r ∈ x.test.ranges.head?, r.Contains code) ∧
        ∀ a ∈ numbers, ∃ r ∈ x.test.ranges.tail, r.Contains a
  | .doAccess => True

instance (t : ProcessTest) (address size : Nat) : Decidable (t.Fits address size) :=
  inferInstanceAs (Decidable (_ ∧ _ ∧ ∀ r ∈ t.ranges, _))

instance (x : TestThread) : ∀ op : ThreadOp, Decidable (op.Proceeds x)
  | .addCodeSegment .. => inferInstanceAs (Decidable (_ ∧ _ ∧ _))
  | .addDataSegment .. => inferInstanceAs (Decidable (_ ∧ _ ∧ _))
  | .instruction .. => inferInstanceAs (Decidable (_ ∧ _ ∧ (∃ r ∈ _, _) ∧ ∀ a ∈ _, _))
  | .doAccess => inferInstanceAs (Decidable True)

namespace TestThread.Sound

variable {levels : Nat} {s s' : KernelSystem} {x : TestThread}

/-- A segment is added, the known bytes of which are in memory. -/
theorem addRange {m : CheckedSegment} {accType : AccessType} {content : Nat → Option Page}
    (hx : x.Sound s) (hpending : x.pending = [])
    (hadds : s.AddsRange x.test.process m.start m.size accType content s')
    (hfits : x.test.Fits m.start m.size)
    (hcode : x.test.ranges = [] → accessIsOk AccessType.execute.code accType.code = true)
    (hdata : x.test.ranges ≠ [] → accessIsOk AccessType.read.code accType.code = true ∧
      accessIsOk AccessType.write.code accType.code = true)
    (hknown : ∀ a, m.Contains a → m.second (a - m.start) = true →
      s'.memory (ownByte x.test.process a) = some (m.first (a - m.start))) :
    (⟨{ x.test with checkMemory := x.test.checkMemory ++ [m] }, x.pending⟩ : TestThread).Sound
      s' := by
  have hranges : ({ x.test with checkMemory := x.test.checkMemory ++ [m] } : ProcessTest).ranges =
      x.test.ranges ++ [m.toTestRange] := List.map_append
  rw [hpending]
  refine ⟨?_, by simp, by simp, by simp, List.nodup_nil, fun a b hrecorded _ => ?_⟩
  · rw [hranges]
    exact hx.segments.add hadds ⟨hfits.1, hfits.2.1⟩ hcode hdata
  · rw [ProcessTest.recorded_append] at hrecorded
    obtain hold | ⟨_, hnew⟩ := Option.or_eq_some_iff.mp hrecorded
    · refine hadds.memory _ b trivial (hx.known a b hold fun e he => ?_)
      rw [hpending] at he
      cases he
    · split at hnew
      · rename_i ha
        obtain ⟨hb, hmarked⟩ := Prod.mk.inj (Option.some.inj hnew)
        rw [hknown a ha hmarked, hb]
      · cases hnew

/-- An instruction is made up of accesses that the segments allow. -/
theorem instruction {j code : Nat} {numbers : List Nat} {random : Nat → BitVec 8}
    (hx : x.Sound s) (hop : (ThreadOp.instruction j code numbers random).Proceeds x) :
    ∃ accesses test, x.test.instruction j code numbers random = .ok (accesses, test) ∧
      (⟨test, accesses⟩ : TestThread).Sound s ∧ test.process = x.test.process := by
  obtain ⟨hpending, hnodup, ⟨r, hr, hcode⟩, hnumbers⟩ := hop
  have hthere : ∀ a ∈ code :: numbers, (x.test.recorded a).isSome = true := by
    refine List.forall_mem_cons.mpr ⟨?_, fun a ha => ?_⟩
    · exact ProcessTest.recorded_isSome.mpr ⟨r, List.mem_of_mem_head? hr, hcode⟩
    · obtain ⟨r', hr', ha'⟩ := hnumbers a ha
      exact ProcessTest.recorded_isSome.mpr ⟨r', List.mem_of_mem_tail hr', ha'⟩
  obtain ⟨data, accesses, test, hinstruction, hmade, hkinds⟩ :=
    ProcessTest.instruction_ok j random hthere hnodup
  refine ⟨_, test, hinstruction, ⟨?_, ?_, hmade.expects, ?_, ?_, fun a b hrecorded hunwritten =>
    ?_⟩, hmade.process⟩
  · rw [hmade.process, hmade.ranges]
    exact hx.segments
  · rw [hmade.process]
    refine List.forall_mem_cons.mpr ⟨hx.segments.code r hr code hcode, fun e he => ?_⟩
    have hmem : e.address ∈ numbers := by
      have haddresses := hmade.addresses
      rw [List.map_cons, List.cons.injEq] at haddresses
      rw [← haddresses.2]
      exact List.mem_map_of_mem he
    obtain ⟨r', hr', ha'⟩ := hnumbers _ hmem
    have hallows := hx.segments.data r' hr' _ ha'
    obtain htype | htype := hkinds e he
    · rw [htype]
      exact hallows.1
    · rw [htype]
      exact hallows.2
  · refine List.forall_mem_cons.mpr ⟨AccessType.noConfusion, fun e he htype => ?_⟩
    obtain hread | hwrite := hkinds e he
    · cases hread.symm.trans htype
    · cases hwrite.symm.trans htype
  · rw [hmade.addresses]
    exact hnodup
  · rw [hmade.unwritten a hunwritten] at hrecorded
    rw [hmade.process]
    refine hx.known a b hrecorded fun e he => ?_
    rw [hpending] at he
    cases he

/-- A step of a thread fails no assertion, and keeps what every thread relies on. -/
theorem exec {op : ThreadOp} (hx : x.Sound s) (hready : s.Ready) (hop : op.Proceeds x) :
    Outcome.Meets (· = TestHalt.assertion) (fun r => r.1.AllMasters → r.2.Sound r.1 ∧
      s.LeavesOthers x.test.process r.1 ∧ r.2.test.process = x.test.process)
      (x.exec levels s op) := by
  have hmaster := hx.segments.master
  have hunnamed := hx.segments.unnamed
  cases op with
  | addCodeSegment address size =>
      obtain ⟨hnone, hpending, hfits⟩ := hop
      have hclear := ProcessTest.clear_of_fits hx.segments hfits
      have hranges : x.test.ranges = [] := by rw [ProcessTest.ranges, hnone, List.map_nil]
      simp only [TestThread.exec, ProcessTest.addCodeSegment, bind_assoc]
      refine (meets_ofKernel fun _ => id).bind fun r hload => ?_
      obtain ⟨status, s'⟩ := r
      dsimp only
      by_cases hok : status = .ok
      · subst status
        rw [if_pos rfl]
        refine Outcome.meets_ok fun hall => ?_
        have hadds := loadSegment_addsRange hready hmaster hunnamed hclear hload hall
        refine ⟨hx.addRange (m := ⟨⟨address, size⟩, BitVec.ofNat 8, fun _ => true⟩) hpending hadds
          hfits (fun _ => by decide) (fun hne => absurd hranges hne) fun a ha _ => ?_,
          hadds.leaves, rfl⟩
        obtain ⟨hi, hpage⟩ :=
          ProcessTest.page_of_contains (h := x.test.process) hfits.1 hfits.2.1 ha
        rw [ownByte, hpage, hadds.contents _ hi _ rfl, byte_bufferPage]
        have hle := ha.1
        have haligned := hfits.1
        congr 2
        simp only [offsetOf, pageSize] at hle haligned ⊢
        omega
      · rw [if_neg hok]
        exact Outcome.meets_error TestHalt.noConfusion
  | addDataSegment address size data =>
      obtain ⟨hsome, hpending, hfits⟩ := hop
      have hclear := ProcessTest.clear_of_fits hx.segments hfits
      have hranges : x.test.ranges ≠ [] := by
        rw [ProcessTest.ranges, Ne, List.map_eq_nil_iff]
        exact hsome
      simp only [TestThread.exec, ProcessTest.addDataSegment, bind_assoc]
      refine (meets_ofKernel fun _ => id).bind fun r hcreate => ?_
      obtain ⟨status, s'⟩ := r
      dsimp only
      by_cases hok : status = .ok
      · subst status
        rw [if_pos rfl]
        refine Outcome.meets_ok fun hall => ?_
        have hadds := createSegment_addsRange hready hmaster hunnamed hclear hcreate hall
        refine ⟨hx.addRange (m := ⟨⟨address, size⟩, data, fun _ => false⟩) hpending hadds hfits
          (fun hnil => absurd hnil hranges) (fun _ => by decide) fun a _ hmarked => ?_,
          hadds.leaves, rfl⟩
        cases hmarked
      · rw [if_neg hok]
        exact Outcome.meets_error TestHalt.noConfusion
  | instruction j code numbers random =>
      obtain ⟨accesses, test, hinstruction, hsound, hprocess⟩ := hx.instruction hop
      simp only [TestThread.exec, hinstruction, Outcome.ok_bind]
      refine Outcome.meets_ok fun _ => ⟨hsound, ⟨hready, rfl, fun y _ => .refl⟩, hprocess⟩
  | doAccess =>
      cases hpending : x.pending with
      | nil =>
          simp only [TestThread.exec, hpending]
          exact Outcome.meets_ok fun _ => ⟨hx, ⟨hready, rfl, fun y _ => .refl⟩, rfl⟩
      | cons e rest =>
          simp only [TestThread.exec, hpending]
          exact (hx.doAccess hready hpending).bind fun r hdone => Outcome.meets_ok fun hall =>
            (hdone hall).1

end TestThread.Sound

/-- A new process has a number below those of segments. -/
def TestOp.Proceeds (t : TestSystem) : TestOp → Prop
  | .create i => t.threads i = none ∧ (t.kernel.pcbVec.insert none).1 < ssegStartInd
  | .thread i op => ∀ x ∈ t.threads i, op.Proceeds x

instance (t : TestSystem) : ∀ op : TestOp, Decidable (op.Proceeds t)
  | .create _ => inferInstanceAs (Decidable (_ = none ∧ _))
  | .thread .. => inferInstanceAs (Decidable (∀ x ∈ _, _))

namespace TestSystem

variable {levels : Nat} {t t' : TestSystem}

/-- A step of the test, which evicts no master table. -/
def Step (levels : Nat) (t : TestSystem) (op : TestOp) (t' : TestSystem) : Prop :=
  op.Proceeds t ∧ t.exec levels op = .ok t' ∧ t'.kernel.AllMasters

/-- What holds whoever's turn it was. -/
structure Sound (t : TestSystem) : Prop where
  ready : t.kernel.Ready
  listed : t.kernel.registry.Listed
  threads : ∀ i x, t.threads i = some x → x.Sound t.kernel
  apart : ∀ i j x y, t.threads i = some x → t.threads j = some y →
    x.test.process = y.test.process → i = j

/-- The threads of other processes find what they relied on. -/
theorem Sound.others {s : KernelSystem} {h i : Nat} {x : TestThread} (ht : t.Sound)
    (hready : s.Ready) (hlisted : s.registry.Listed) (hx : x.Sound s)
    (hprocess : x.test.process = h)
    (hothers : ∀ y, y ≠ h → t.kernel.HasMaster y → (∀ name n, ¬ t.kernel.IsSegment name n y) →
      t.kernel.SparesProcess y (fun _ => True) s)
    (hone : ∀ j y, t.threads j = some y → y.test.process = h → j = i) :
    (⟨s, update t.threads i (some x)⟩ : TestSystem).Sound := by
  have hthread : ∀ j y, update t.threads i (some x) j = some y →
      j = i ∧ y = x ∨ j ≠ i ∧ t.threads j = some y := by
    intro j y hy
    by_cases hj : j = i
    · subst j
      rw [update_self] at hy
      exact .inl ⟨rfl, (Option.some.inj hy).symm⟩
    · rw [update_of_ne hj] at hy
      exact .inr ⟨hj, hy⟩
  refine ⟨hready, hlisted, fun j y hy => ?_, fun j k y z hy hz hsame => ?_⟩
  · obtain ⟨_, rfl⟩ | ⟨hj, hold⟩ := hthread j y hy
    · exact hx
    · have hsound := ht.threads j y hold
      exact hsound.keep (hothers _ (fun heq => hj (hone j y hold heq)) hsound.segments.master
        hsound.segments.unnamed)
  · obtain ⟨rfl, rfl⟩ | ⟨hj, hold⟩ := hthread j y hy
    · obtain ⟨rfl, _⟩ | ⟨hk, hold⟩ := hthread k z hz
      · rfl
      · exact absurd (hone k z hold (hsame.symm.trans hprocess)) hk
    · obtain ⟨rfl, rfl⟩ | ⟨_, hold'⟩ := hthread k z hz
      · exact absurd (hone j y hold (hsame.trans hprocess)) hj
      · exact ht.apart j k y z hold hold' hsame

end TestSystem

/-- A process that was just created has nothing yet. -/
theorem createProcess_hasSegments {s s' : KernelSystem} {h : Nat} (hready : s.Ready)
    (hlisted : s.registry.Listed) (hlow : (s.pcbVec.insert none).1 < ssegStartInd)
    (hcreate : s.createProcess = .ok (h, s')) (hall : s'.AllMasters) :
    h = s.nextPcb ∧ s'.Ready ∧ s'.registry.Listed ∧ HasSegments h [] s' ∧
      ∀ y, y ≠ h → s.HasMaster y → (∀ name n, ¬ s.IsSegment name n y) →
        s.SparesProcess y (fun _ => True) s' := by
  have hadds := createProcess_registry hcreate
  have hlisted' := hadds.listed hlisted
  have hstep : KeepingStep 0 s (.call .createProcess) s' := by
    refine ⟨⟨⟨⟨fun x hx => ?_, fun r hr => ?_, trivial⟩, ?_, hall⟩, fun r hr => ?_⟩, id⟩
    · cases hx
    · cases hr
    · simp only [MemoryOp.exec, KernelOp.exec, hcreate, Outcome.ok_bind]
    · cases hr
  have hready' := MemoryOp.ready_step hready hstep.1.1 hstep.1.2
  obtain ⟨g, hinv, hsound⟩ := hready.consistent
  obtain ⟨g', m, hinv', hm, hcarried, _, hslots, _⟩ := hinv.createProcess_inv hsound hcreate
  have hsound' := hcarried.sound hsound
  obtain ⟨rfl, vec, _, hregistry⟩ := id hadds
  have hnew : s'.registry.process s.nextPcb = some ((s.pcbVec.insert none).1, none) := by
    rw [hregistry]
    exact update_self ..
  have hold : ∀ y pid, s.HasId y pid → ∃ b, s'.registry.process y = some (pid, b) := by
    intro y pid hid
    obtain ⟨b, hprocess⟩ := hid.process
    have hne : y ≠ s.nextPcb := by
      rintro rfl
      cases hprocess.symm.trans (hlisted.fresh s.nextPcb (Nat.le_refl _))
    refine ⟨b, ?_⟩
    rw [hregistry]
    exact (update_of_ne hne ..).trans hprocess
  refine ⟨rfl, hready', hlisted', ⟨⟨_, hasId_of_process hlisted' hnew hlow⟩,
    hinv'.hasMaster_iff.mpr ⟨m, hm⟩, fun name n hsegment => ?_, by simp, by simp, by simp,
    fun v hv hinside => ?_⟩, fun y hne hmaster hunnamed => ?_⟩
  · obtain hbefore | ⟨_, _, _, _, _, hop⟩ := (isSegment_iff_named.mp hsegment).before
      hready.directory (hstep.1.1.registry hready.consistent)
    · exact absurd (hbefore.dummy_lt hready.bounded) (Nat.lt_irrefl _)
    · cases hop
  · have hgone : g'.place (.table v.proc v.slot) = .gone := by
      rw [hv]
      exact hslots v.slot
    rw [hinv'.inSegment_iff hsound' (m := m) (by rw [hv]; exact hm),
      hinv'.inseg_nowhere (.inl hgone)] at hinside
    cases hinside
  · refine .of_step hready hmaster hunnamed hstep (fun pid hid => ?_) ?_ fun c value _ _ heq => ?_
    · obtain ⟨b, hprocess⟩ := hold y pid hid
      exact hasId_of_process hlisted' hprocess hid.low
    · rintro (⟨r, hr, _⟩ | hmade)
      · cases hr
      · exact absurd hmade (hready.not_madeSince hmaster)
    · cases (MemoryOp.event_call hstep.2).symm.trans heq

namespace TestSystem

variable {levels : Nat} {start t t' : TestSystem} {op : TestOp}

theorem Sound.create {i : Nat} (ht : t.Sound) (hop : (TestOp.create i).Proceeds t) :
    Outcome.Meets (· = TestHalt.assertion) (fun t' => t'.kernel.AllMasters → t'.Sound)
      (t.exec levels (.create i)) := by
  refine (meets_ofKernel fun _ => id).bind fun r hcreate => ?_
  obtain ⟨h, s'⟩ := r
  refine Outcome.meets_ok fun hall => ?_
  obtain ⟨rfl, hready, hlisted, hsegments, hothers⟩ :=
    createProcess_hasSegments ht.ready ht.listed hop.2 hcreate hall
  refine ht.others hready hlisted ⟨hsegments, by simp, by simp, by simp, List.nodup_nil,
    fun a b hrecorded => ?_⟩ rfl hothers fun j y hy hsame => ?_
  · cases hrecorded
  · -- No thread has a process yet that the kernel has not made.
    obtain ⟨pid, hid⟩ := (ht.threads j y hy).segments.hasId
    obtain ⟨b, hprocess⟩ := hid.process
    rw [hsame] at hprocess
    cases hprocess.symm.trans (ht.listed.fresh _ (Nat.le_refl _))

theorem Sound.thread {i : Nat} {step : ThreadOp} (ht : t.Sound)
    (hop : (TestOp.thread i step).Proceeds t) :
    Outcome.Meets (· = TestHalt.assertion) (fun t' => t'.kernel.AllMasters → t'.Sound)
      (t.exec levels (.thread i step)) := by
  cases hx : t.threads i with
  | none =>
      simp only [TestSystem.exec, hx]
      exact Outcome.meets_ok fun _ => ht
  | some x =>
      simp only [TestSystem.exec, hx]
      refine ((ht.threads i x hx).exec ht.ready (hop x hx)).bind fun r hdone =>
        Outcome.meets_ok fun hall => ?_
      obtain ⟨hsound, hleaves, hprocess⟩ := hdone hall
      refine ht.others hleaves.ready (hleaves.registry ▸ ht.listed) hsound hprocess
        hleaves.others fun j y hy hsame => ht.apart j i y x hy hx hsame

theorem Sound.exec (ht : t.Sound) (hop : op.Proceeds t) :
    Outcome.Meets (· = TestHalt.assertion) (fun t' => t'.kernel.AllMasters → t'.Sound)
      (t.exec levels op) := by
  cases op with
  | create i => exact ht.create hop
  | thread i step => exact ht.thread hop

/-- Before the test there is a kernel that was just made, and no thread. -/
structure Begins (t : TestSystem) : Prop where
  booted : t.kernel.Booted
  user : t.kernel.userspcSize ≤ 65536
  krnl : t.kernel.krnlspcSize ≤ 65536
  threads : ∀ i, t.threads i = none

theorem Begins.sound (hstart : start.Begins) : start.Sound where
  ready := ready_of_booted hstart.booted hstart.user hstart.krnl
  listed := hstart.booted.registry ▸ Registry.listed_empty
  threads i x hx := by cases (hstart.threads i).symm.trans hx
  apart i j x y hx := by cases (hstart.threads i).symm.trans hx

/-- The test, as far as it goes. -/
def follow (levels : Nat) (t : TestSystem) (ops : List TestOp) : Option TestSystem :=
  Run.follow (fun t op => if op.Proceeds t then
    (t.exec levels op).toOption.filter fun t' => decide t'.kernel.AllMasters else none) t ops

theorem run_of_follow {ops : List TestOp} (hfollow : follow levels start ops = some t) :
    Run (Step levels) start ops t := by
  refine Run.of_follow (fun t op t' hstep => ?_) hfollow
  split at hstep
  · rename_i hop
    obtain ⟨hexec, hall⟩ := Option.filter_eq_some_iff.mp hstep
    exact ⟨hop, Outcome.toOption_ok hexec, of_decide_eq_true hall⟩
  · cases hstep

theorem sound_of_run {ops : List TestOp} (hstart : start.Begins)
    (hrun : Run (Step levels) start ops t) : t.Sound :=
  hrun.invariant Sound (fun _ _ _ ht hstep => (ht.exec hstep.1).ok hstep.2.1 hstep.2.2)
    hstart.sound

/-- Two threads with a code page and a data page each. Both have written to the same address, and
the first one is to read what it wrote. -/
def twoThreads : List TestOp :=
  [.create 0, .create 1, .thread 0 (.addCodeSegment 0 1), .thread 1 (.addCodeSegment 0 1),
    .thread 0 (.addDataSegment 1024 1 fun _ => 0), .thread 1 (.addDataSegment 1024 1 fun _ => 0),
    .thread 0 (.instruction 3 5 [1030] fun _ => 7), .thread 1 (.instruction 3 5 [1030] fun _ => 9),
    .thread 0 .doAccess, .thread 1 .doAccess, .thread 0 .doAccess, .thread 1 .doAccess,
    .thread 0 (.instruction 2 5 [1030] fun _ => 0), .thread 0 .doAccess]

/-- Whichever thread goes next, no assertion of the test fails. -/
theorem assertions_hold {ops : List TestOp} (hstart : start.Begins)
    (hrun : Run (Step levels) start ops t) (hop : op.Proceeds t) :
    t.exec levels op ≠ .error .assertion :=
  ((sound_of_run hstart hrun).exec hop).not_error rfl

/-- Two threads that share one frame for their pages. -/
theorem assertions_hold_two : ∃ t : TestSystem,
    t.exec 2 (.thread 0 .doAccess) ≠ .error .assertion := by
  have hruns : (smallKernel 1 6 8 (List.replicate 9 0)).toOption.any (fun s =>
      decide (s.userspcSize ≤ 65536) && decide (s.krnlspcSize ≤ 65536) &&
        (follow 2 ⟨s, fun _ => none⟩ twoThreads).any fun t =>
          decide ((TestOp.thread 0 .doAccess).Proceeds t)) = true := by decide +kernel
  obtain ⟨s, hboot, hcheck⟩ := (Option.any_eq_true _ _).mp hruns
  simp only [Bool.and_eq_true, decide_eq_true_eq, Option.any_eq_true] at hcheck
  obtain ⟨⟨huser, hkrnl⟩, t, hfollow, hop⟩ := hcheck
  have hstart : Begins ⟨s, fun _ => none⟩ :=
    ⟨smallKernel_booted (Outcome.toOption_ok hboot), huser, hkrnl, fun _ => rfl⟩
  exact ⟨t, assertions_hold hstart (run_of_follow hfollow) hop⟩

/-- Whatever the other threads did, a thread reads what its test knows to be there. -/
theorem reads_expected {ops : List TestOp} {i : Nat} {x : TestThread} {e : TestAccess}
    {rest : List TestAccess} {value b : BitVec 8} {s' : KernelSystem} {test : ProcessTest}
    (hstart : start.Begins) (hrun : Run (Step levels) start ops t)
    (hx : t.threads i = some x) (hpending : x.pending = e :: rest)
    (hread : t.kernel.doAccess levels x.test e = .ok (some value, s', test))
    (hall : s'.AllMasters) (hmarked : x.test.recorded e.address = some (b, true)) : value = b := by
  have hsound := sound_of_run hstart hrun
  have hdone := ((hsound.threads i x hx).doAccess hsound.ready hpending).ok hread
  exact (hdone hall).2 value b rfl hmarked

/-- The first thread reads the 7 that it wrote, and not the 9 of the second one. -/
theorem reads_expected_two : ∃ (t : TestSystem) (x : TestThread) (s : KernelSystem)
    (test : ProcessTest), t.threads 0 = some x ∧
      t.kernel.doAccess 2 x.test ⟨1030, .read, 7⟩ = .ok (some 7, s, test) := by
  have hruns : (smallKernel 1 6 8 (List.replicate 9 0)).toOption.any (fun s =>
      decide (s.userspcSize ≤ 65536) && decide (s.krnlspcSize ≤ 65536) &&
        (follow 2 ⟨s, fun _ => none⟩ twoThreads).any fun t => (t.threads 0).any fun x =>
          decide (x.pending = [⟨1030, .read, 7⟩]) &&
          decide (x.test.recorded 1030 = some (7, true)) &&
          Outcome.holds (t.kernel.doAccess 2 x.test ⟨1030, .read, 7⟩) fun r =>
            decide r.2.1.AllMasters && r.1.isSome) = true := by decide +kernel
  obtain ⟨s, hboot, hcheck⟩ := (Option.any_eq_true _ _).mp hruns
  simp only [Bool.and_eq_true, decide_eq_true_eq, Option.any_eq_true] at hcheck
  obtain ⟨⟨huser, hkrnl⟩, t, hfollow, x, hx, ⟨hpending, hmarked⟩, hread⟩ := hcheck
  obtain ⟨⟨_, s', test⟩, hread, hdone⟩ := Outcome.of_holds hread
  simp only [Bool.and_eq_true, decide_eq_true_eq, Option.isSome_iff_exists] at hdone
  obtain ⟨hall, value, rfl⟩ := hdone
  have hstart : Begins ⟨s, fun _ => none⟩ :=
    ⟨smallKernel_booted (Outcome.toOption_ok hboot), huser, hkrnl, fun _ => rfl⟩
  obtain rfl : value = 7 :=
    reads_expected hstart (run_of_follow hfollow) hx hpending hread hall hmarked
  exact ⟨t, x, s', test, hx, hread⟩

end TestSystem

end VirtualMemory

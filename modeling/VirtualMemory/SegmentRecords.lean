import VirtualMemory.SegmentRanges
import VirtualMemory.PrivateRuns

/-!
# What the segment table records

A call that creates a segment writes one entry of the segment table, which deletion, the
overlap test, destruction and cloning rely on later. The entry says what was mapped where
the length fits its fourteen bits and the page number the bits that the call takes of it,
and what was loaded into the pages is found there, wherever they went meanwhile.
-/

namespace VirtualMemory

open Function UserSpace KernelSystem PageTableL2Entry

namespace KernelOp

/-- The kind of the segment that a call creates. -/
def newKind : KernelOp → KindEnum
  | .createSharedSegment .. => .occShared
  | _ => .occupied

/-- The call creates its segment: it returns with status OK. -/
def Makes (s : KernelSystem) (op : KernelOp) (s' : KernelSystem) : Prop :=
  match op with
  | .createSegment h startAddr size accType =>
      s.createSegment h startAddr size accType = .ok (.ok, s')
  | .loadSegment h startAddr size accType content =>
      s.loadSegment h startAddr size accType content = .ok (.ok, s')
  | .createSharedSegment h startAddr size name accType =>
      s.createSharedSegment h startAddr size name accType = .ok (.ok, s')
  | _ => False

/-- `load_segment` takes ten bits of the page number, the other calls all that it has. -/
def StartKept : KernelOp → Prop
  | .loadSegment _ startAddr _ _ _ => startAddr / pageSize < 2 ^ 10
  | _ => True

theorem newKind_ne_free (op : KernelOp) : op.newKind ≠ .free := by
  cases op <;> exact nofun

/-- A call that gets past the tests on its arguments was made at the start of a page. -/
theorem Makes.aligned {s s' : KernelSystem} {op : KernelOp} {r : NewRange}
    (hr : op.newRange = some r) (hmakes : op.Makes s s') : r.startAddr % pageSize = 0 := by
  by_contra hoff
  have hargs : ∀ (p : KernelProcess) (size : Nat), segmentArgs p r.startAddr size = false := by
    simp [segmentArgs, hoff]
  cases op with
  | createSegment | loadSegment | createSharedSegment =>
      cases hr
      obtain ⟨p, _, hrest⟩ := Outcome.bind_ok hmakes
      rw [if_pos (by rw [hargs]; rfl)] at hrest
      cases hrest
  | _ => cases hr

theorem ordinal_lt {r : NewRange} (op : KernelOp) (hr : op.newRange = some r) :
    r.ordinal < 2 ^ 14 := by
  cases op with
  | createSegment | loadSegment | createSharedSegment =>
      cases hr
      dsimp only
      omega
  | _ => cases hr

theorem ordinal_eq_iff {op : KernelOp} {r : NewRange} (hr : op.newRange = some r)
    (haddr : r.startAddr < 2 ^ 24) : r.ordinal = r.startAddr / pageSize ↔ op.StartKept := by
  cases op with
  | createSegment | createSharedSegment =>
      cases hr
      simp only [StartKept, pageSize, iff_true] at haddr ⊢
      omega
  | loadSegment =>
      cases hr
      simp only [StartKept, pageSize] at haddr ⊢
      omega
  | _ => cases hr

end KernelOp

namespace KernelSystem

/-- Entry `n`, which was free, is the record of the range: the pages that it names, and no
others, entered a segment, and no other entry changed. A page of another process counts as
long as the master table of that process is in memory. -/
structure RecordedAs (s : KernelSystem) (r : NewRange) (kind : KindEnum) (s' : KernelSystem)
    (n : Fin 192) (e : SegTableEntry) : Prop where
  free : ∃ e₀, s.segmentEntry r.proc n = some e₀ ∧ e₀.getKind = .free
  entry : s'.segmentEntry r.proc n = some e
  start : e.start = r.startAddr / pageSize
  length : e.getLength = r.size
  kind : e.getKind = kind
  pages : ∀ v : LPage, v.proc = r.proc ∨ s.HasMaster v.proc ∧ s'.HasMaster v.proc →
    ((¬ s.InSegment v ∧ s'.InSegment v) ↔ ∃ i < e.getLength, v = entryPage e r.proc i)
  others : ∀ h n', s.HasMaster h → (h = r.proc → n' ≠ n) →
    s'.segmentEntry h n' = s.segmentEntry h n'

/-- The range of a call is on record. -/
def Records (s : KernelSystem) (r : NewRange) (kind : KindEnum) (s' : KernelSystem) : Prop :=
  ∃ n e, s.RecordedAs r kind s' n e

end KernelSystem

/-- A segment that was created, by whichever call: its entry, its pages, and what is left
alone. -/
structure SegmentMade (g : Layout) (s : KernelSystem) (r : NewRange) (kind : KindEnum)
    (m : Nat) (g' : Layout) (s' : KernelSystem) : Prop where
  inv : KernelInv g' noHand noHand s'
  sound : g'.Sound
  master : g'.place (.master r.proc) = .frame m
  entry : NewSegment g r.proc r.ordinal r.startAddr r.size kind g'
  segs : ∀ h n, h ≠ r.proc → ¬ MadeSince s h → g'.segment h n = g.segment h n
  pages : ∀ v, ¬ InRange r.proc r.startAddr r.size v → ¬ MadeSince s v.proc →
    Kept s.toUserSpace (g.desc v) s'.toUserSpace (g'.desc v)
  inseg : ∀ i, i < r.size → (g'.desc (pageOf r.proc (pageAddr r.startAddr i))).getInseg = true
  live : ∀ h, ¬ MadeSince s h → h ≠ r.proc → g'.NoMaster h → g.NoMaster h

/-- Either call that creates a private segment makes it. -/
theorem SegmentCreated.made {g g' : Layout} {s s' : KernelSystem} {r : NewRange} {m : Nat}
    {accType : AccessType} {content : Nat → Option Page} (hsound : g.Sound)
    (hinv' : KernelInv g' noHand noHand s') (hm' : g'.place (.master r.proc) = .frame m)
    (hcreated : SegmentCreated g s r.proc r.ordinal r.startAddr r.size accType content g' s' .ok) :
    SegmentMade g s r .occupied m g' s' := by
  obtain ⟨hok, _⟩ | ⟨_, hnew, hcarried, hpages⟩ := hcreated
  · cases hok
  · exact ⟨hinv', hcarried.sound hsound, hm', hnew,
      fun h n hh _ => congrArg PageTableL2Entry.toSeg (hcarried.segs h n hh),
      fun v hv _ => hcarried.pages v hv, fun i hi => (hpages i hi).1.inseg,
      fun h _ hh hnone => (hcarried.dead h hh hnone).1⟩

theorem KernelOp.Makes.made {g : Layout} {s s' : KernelSystem} {op : KernelOp} {r : NewRange}
    {m : Nat} (hinv : KernelInv g noHand noHand s) (hsound : g.Sound)
    (hr : op.newRange = some r) (hm : g.place (.master r.proc) = .frame m)
    (hclear : ∀ v, InRange r.proc r.startAddr r.size v → (g.desc v).getInseg = false)
    (hmakes : op.Makes s s') : ∃ g', SegmentMade g s r op.newKind m g' s' := by
  cases op with
  | createSegment h startAddr size accType =>
      cases hr
      obtain ⟨g', hinv', hm', _, hcreated⟩ :=
        hinv.createSegment_inv hsound hm (fun _ => hclear) hmakes
      exact ⟨g', SegmentCreated.made hsound hinv' hm' hcreated⟩
  | loadSegment h startAddr size accType content =>
      cases hr
      obtain ⟨g', hinv', hm', _, hcreated⟩ :=
        hinv.loadSegment_inv hsound hm (fun _ => hclear) hmakes
      exact ⟨g', SegmentCreated.made hsound hinv' hm' hcreated⟩
  | createSharedSegment h startAddr size name accType =>
      cases hr
      obtain ⟨g', hinv', hm', _, ⟨hok, _⟩ | ⟨_, hnew, hcarried, ⟨ssegInd, _, hpages⟩, _⟩⟩ :=
        hinv.createSharedSegment_inv hsound hm (fun _ => hclear) hmakes
      · cases hok
      · exact ⟨g', hinv', hcarried.sound hsound, hm', hnew,
          fun x n hx hold => congrArg PageTableL2Entry.toSeg
            (hcarried.segs x n fun hmine => hmine.elim hx hold),
          fun v hv hold => hcarried.pages v fun hbut => hbut.elim hv hold,
          fun i hi => (hpages i hi).inseg,
          fun x hold hx hnone => (hcarried.dead x (fun hmine => hmine.elim hx hold) hnone).1⟩
  | _ => cases hr

namespace SegmentMade

variable {g g' : Layout} {s s' : KernelSystem} {r : NewRange} {kind : KindEnum} {m : Nat}

/-- The segment table's entries of the processes whose master table was in memory. -/
theorem segmentEntry_eq (hmade : SegmentMade g s r kind m g' s')
    (hinv : KernelInv g noHand noHand s) {h : Nat} (hmaster : s.HasMaster h) (n : Fin 192) :
    s'.segmentEntry h n = some (g'.segment h n) ∧ s.segmentEntry h n = some (g.segment h n) := by
  obtain ⟨m', hm'⟩ := hinv.hasMaster_iff.mp hmaster
  refine ⟨hmade.inv.segmentEntry_eq ?_, hinv.segmentEntry_eq (KernelInv.not_noMaster hm')⟩
  by_cases hh : h = r.proc
  · rw [hh]
    exact KernelInv.not_noMaster hmade.master
  · exact fun hnone => KernelInv.not_noMaster hm'
      (hmade.live h (hinv.not_madeSince hm') hh hnone)

/-- The pages that entered a segment, of the processes whose master table stayed. -/
theorem enters_iff (hmade : SegmentMade g s r kind m g' s') (hinv : KernelInv g noHand noHand s)
    (hsound : g.Sound) (hm : g.place (.master r.proc) = .frame m)
    (hclear : ∀ v, InRange r.proc r.startAddr r.size v → (g.desc v).getInseg = false) {v : LPage}
    (hv : v.proc = r.proc ∨ s.HasMaster v.proc ∧ s'.HasMaster v.proc) :
    (¬ s.InSegment v ∧ s'.InSegment v) ↔ InRange r.proc r.startAddr r.size v := by
  obtain ⟨⟨m₀, hm₀⟩, m₁, hm₁⟩ : (∃ m₀, g.place (.master v.proc) = .frame m₀) ∧
      ∃ m₁, g'.place (.master v.proc) = .frame m₁ := by
    obtain hproc | ⟨hbefore, hafter⟩ := hv
    · rw [hproc]
      exact ⟨⟨m, hm⟩, m, hmade.master⟩
    · exact ⟨hinv.hasMaster_iff.mp hbefore, hmade.inv.hasMaster_iff.mp hafter⟩
  rw [hinv.inSegment_iff hsound hm₀, hmade.inv.inSegment_iff hmade.sound hm₁]
  constructor
  · rintro ⟨hout, hin⟩
    by_contra hrange
    have hkept := hmade.pages v hrange (hinv.not_madeSince hm₀)
    exact hout (hkept.sameRights.inseg.symm.trans hin)
  · intro hrange
    refine ⟨by simp [hclear v hrange], ?_⟩
    obtain ⟨i, hi, rfl⟩ := hrange
    exact hmade.inseg i hi

/-- An entry that is live now and was free is the new one. -/
theorem new_entry (hmade : SegmentMade g s r kind m g' s') {n : Fin 192}
    (hfree : (g.segment r.proc n).getKind = .free) (hlive : (g'.segment r.proc n).getKind ≠ .free) :
    g'.segment r.proc n = Working.recorded (g.segment r.proc n) r.ordinal r.size kind := by
  obtain ⟨n₀, _, hentry⟩ := hmade.entry.entry
  by_cases hn : n = n₀
  · subst n
    rw [hentry, if_pos rfl]
  · rw [hentry, if_neg hn] at hlive
    exact absurd hfree hlive

end SegmentMade

namespace Working

variable (e : SegTableEntry) (ordinal size : Nat) (kind : KindEnum)

theorem start_recorded : (recorded e ordinal size kind).start = ordinal % 65536 := by
  simp [recorded]

theorem getLength_recorded : (recorded e ordinal size kind).getLength = size % 16384 := by
  simp [recorded]

theorem getKind_recorded : (recorded e ordinal size kind).getKind = kind := by
  simp [recorded]

end Working

theorem SegTableEntry.getLength_lt (e : SegTableEntry) : e.getLength < 2 ^ 14 := by
  have hlt := e.lenKind.isLt
  unfold getLength
  omega

/-- The pages of an entry that starts where the range does. -/
theorem entryPage_eq {e : SegTableEntry} {startAddr : Nat} (haligned : startAddr % pageSize = 0)
    (hstart : e.start = startAddr / pageSize) (h i : Nat) :
    entryPage e h i = pageOf h (pageAddr startAddr i) := by
  have hsame : e.start * pageSize = startAddr := by
    rw [hstart]
    exact Nat.div_mul_cancel (Nat.dvd_of_mod_eq_zero haligned)
  rw [entryPage, hsame]

/-- A small kernel with its first process. -/
theorem smallKernel_created {userspcSize frames clusters h : Nat} {dice : List Nat}
    {before start : KernelSystem}
    (huser : userspcSize ≤ 65536) (hkrnl : 4 + frames ≤ 65536)
    (hboot : smallKernel userspcSize frames clusters dice = .ok before)
    (hcreate : before.createProcess = .ok (h, start)) : start.Consistent := by
  obtain ⟨g, m, hinv, _, hcarried, _⟩ :=
    (boot_inv huser hkrnl hboot).createProcess_inv Layout.sound_none hcreate
  exact ⟨g, hinv, hcarried.sound Layout.sound_none⟩

/-- A call on a range records it just when no page of the range was in a segment, the length
is below `2 ^ 14` and the page number has the bits that the call takes of it. -/
theorem range_recorded {s s' : KernelSystem} {op : KernelOp} {r : NewRange}
    (hcons : s.Consistent) (hr : op.newRange = some r) (hmaster : s.HasMaster r.proc)
    (haddr : r.startAddr < 2 ^ 24) (hmakes : op.Makes s s') :
    s.Records r op.newKind s' ↔
      s.Clear r.proc r.startAddr r.size ∧ r.size < 2 ^ 14 ∧ op.StartKept := by
  obtain ⟨g, hinv, hsound⟩ := hcons
  obtain ⟨m, hm⟩ := hinv.hasMaster_iff.mp hmaster
  have haligned := hmakes.aligned hr
  have hmade : s.Clear r.proc r.startAddr r.size →
      (∀ v, InRange r.proc r.startAddr r.size v → (g.desc v).getInseg = false) ∧
        ∃ g', SegmentMade g s r op.newKind m g' s' := by
    intro hclear
    have hrange : ∀ v, InRange r.proc r.startAddr r.size v → (g.desc v).getInseg = false := by
      rintro v ⟨i, hi, rfl⟩
      have hout := hclear i hi
      rwa [hinv.inSegment_iff hsound hm, Bool.not_eq_true] at hout
    exact ⟨hrange, hmakes.made hinv hsound hr hm hrange⟩
  rw [← KernelOp.ordinal_eq_iff hr haddr]
  constructor
  · rintro ⟨n, e, hrec⟩
    have hsize : r.size < 2 ^ 14 := hrec.length ▸ e.getLength_lt
    have hclear : s.Clear r.proc r.startAddr r.size := by
      intro i hi
      refine ((hrec.pages _ (.inl rfl)).mpr ⟨i, by rwa [hrec.length], ?_⟩).1
      rw [entryPage_eq haligned hrec.start]
    refine ⟨hclear, hsize, ?_⟩
    obtain ⟨_, g', hmade⟩ := hmade hclear
    obtain ⟨e₀, he₀, hfree⟩ := hrec.free
    obtain ⟨hafter, hbefore⟩ := hmade.segmentEntry_eq hinv hmaster n
    cases he₀.symm.trans hbefore
    have hentry := hrec.entry
    cases hentry.symm.trans hafter
    have hnew := hmade.new_entry hfree (hrec.kind ▸ op.newKind_ne_free)
    have hstart := hrec.start
    rw [hnew, Working.start_recorded] at hstart
    have hpage : r.ordinal < 2 ^ 14 := op.ordinal_lt hr
    omega
  · rintro ⟨hclear, hsize, hordinal⟩
    obtain ⟨hrange, g', hmade⟩ := hmade hclear
    obtain ⟨n, hfree, hentry⟩ := hmade.entry.entry
    have hnew := hentry n
    rw [if_pos rfl] at hnew
    obtain ⟨hafter, hbefore⟩ := hmade.segmentEntry_eq hinv hmaster n
    have hstart : (g'.segment r.proc n).start = r.startAddr / pageSize := by
      have hpage : r.ordinal < 2 ^ 14 := op.ordinal_lt hr
      rw [hnew, Working.start_recorded]
      omega
    have hlength : (g'.segment r.proc n).getLength = r.size := by
      rw [hnew, Working.getLength_recorded]
      omega
    refine ⟨n, g'.segment r.proc n, ⟨_, hbefore, hfree⟩, hafter, hstart, hlength, ?_,
      fun v hv => ?_, fun h n' hh hne => ?_⟩
    · rw [hnew, Working.getKind_recorded]
    · rw [hmade.enters_iff hinv hsound hm hrange hv, hlength]
      exact exists_congr fun i => and_congr_right fun _ => by rw [entryPage_eq haligned hstart]
    · obtain ⟨hafter', hbefore'⟩ := hmade.segmentEntry_eq hinv hh n'
      rw [hafter', hbefore']
      by_cases hproc : h = r.proc
      · rw [hproc, hentry, if_neg (hne hproc)]
      · obtain ⟨m', hm'⟩ := hinv.hasMaster_iff.mp hh
        rw [hmade.segs h n' hproc (hinv.not_madeSince hm')]

/-- Two pages that are loaded by a new process, and are on record. -/
theorem range_recorded_two : ∃ s s' : KernelSystem,
    (KernelOp.loadSegment 0 5120 2 .read fun _ => blankPage).Makes s s' ∧
      s.Records ⟨0, 5, 5120, 2⟩ .occupied s' := by
  have hruns : (KernelOp.runFirst KernelOp.anyStep 1 4 4 [0, 0] []).any (fun r =>
      decide (r.2.2.2.HasMaster 0) && decide (r.2.2.2.Clear 0 5120 2) &&
        Outcome.holds (r.2.2.2.loadSegment 0 5120 2 .read fun _ => blankPage) fun r' =>
          decide (r'.1 = .ok)) = true := by
    decide +kernel
  obtain ⟨⟨before, h, start, s⟩, hr, hcheck⟩ := (Option.any_eq_true _ _).mp hruns
  simp only [Bool.and_eq_true, decide_eq_true_eq] at hcheck
  obtain ⟨⟨hmaster, hclear⟩, hload⟩ := hcheck
  obtain ⟨hboot, hcreate, hrun⟩ := KernelOp.runFirst_run hr
  cases hrun
  obtain ⟨⟨status, s'⟩, hload, hok⟩ := Outcome.of_holds hload
  obtain rfl : status = .ok := of_decide_eq_true hok
  have hmakes : (KernelOp.loadSegment 0 5120 2 .read fun _ => blankPage).Makes start s' := hload
  have hcons := smallKernel_created (by decide) (by decide) hboot hcreate
  refine ⟨start, s', hmakes, (range_recorded (r := ⟨0, 5, 5120, 2⟩) hcons rfl hmaster (by decide)
    hmakes).mpr ⟨hclear, by decide, ?_⟩⟩
  show 5120 / pageSize < 2 ^ 10
  decide

/-- A page that is loaded at page 1024 is on record as page 0. -/
theorem range_not_recorded : ¬ ∀ (s s' : KernelSystem) (op : KernelOp) (r : NewRange),
    s.Consistent → op.newRange = some r → s.HasMaster r.proc → r.startAddr < 2 ^ 24 →
    op.Makes s s' → s.Records r op.newKind s' := by
  intro hall
  have hruns : (KernelOp.runFirst KernelOp.anyStep 1 2 2 [] []).any (fun r =>
      decide (r.2.2.2.HasMaster 0) &&
        Outcome.holds (r.2.2.2.loadSegment 0 (1024 * 1024) 1 .read fun _ => blankPage) fun r' =>
          decide (r'.1 = .ok) && (List.finRange 192).all fun n =>
            (r'.2.segmentEntry 0 n).all fun e => decide (e.start ≠ 1024)) = true := by
    decide +kernel
  obtain ⟨⟨before, h, start, s⟩, hr, hcheck⟩ := (Option.any_eq_true _ _).mp hruns
  simp only [Bool.and_eq_true, decide_eq_true_eq] at hcheck
  obtain ⟨hmaster, hload⟩ := hcheck
  obtain ⟨hboot, hcreate, hrun⟩ := KernelOp.runFirst_run hr
  cases hrun
  obtain ⟨⟨status, s'⟩, hload, hok⟩ := Outcome.of_holds hload
  simp only [Bool.and_eq_true, decide_eq_true_eq, List.all_eq_true] at hok
  obtain ⟨rfl, hnone⟩ := hok
  obtain ⟨n, e, hrec⟩ := hall start s' (.loadSegment 0 (1024 * 1024) 1 .read fun _ => blankPage)
    ⟨0, 0, 1024 * 1024, 1⟩ (smallKernel_created (by decide) (by decide) hboot hcreate) rfl hmaster
    (by decide) hload
  have hother := hnone n (List.mem_finRange n)
  rw [hrec.entry] at hother
  exact of_decide_eq_true hother hrec.start

namespace KernelSystem

/-- No process has its master table out of memory. -/
def AllMasters (s : KernelSystem) : Prop :=
  ∀ h, h < s.nextPcb → (s.pcbs h).isSome = true → s.HasMaster h

instance (s : KernelSystem) : Decidable s.AllMasters :=
  inferInstanceAs (Decidable (∀ h, h < s.nextPcb → _))

/-- The descriptor of a page; where there is no page table for it, that of a new one. -/
def entry (s : KernelSystem) (v : LPage) : PageTableL2Entry :=
  (s.descriptor v).getD ⟨0#16, 0#8, 0#8⟩

/-- A page that is what it was, in memory or on the disk. -/
structure Undisturbed (s s' : KernelSystem) (v : LPage) : Prop where
  rights : SameRights (s.entry v) (s'.entry v)
  content : s'.content (s'.entry v) = s.content (s.entry v)
  mapping : (s.entry v).getShared = true → s'.entry v = s.entry v

/-- A page of a segment with these rights and contents. -/
def Holds (s : KernelSystem) (v : LPage) (accType : AccessType) (page : Page) : Prop :=
  ∃ e, s.descriptor v = some e ∧ NewPage accType e ∧ s.content e = some page

end KernelSystem

namespace KernelInv

variable {g g' : Layout} {s s' : KernelSystem} {v : LPage} {m : Nat}

theorem pcb_lt (hinv : KernelInv g noHand noHand s) {h : Nat} (hsome : (s.pcbs h).isSome = true) :
    h < s.nextPcb := by
  by_contra hle
  have hgone := (hinv.fresh h (Nat.not_lt.mp hle)).1
  rw [← hinv.live] at hgone
  rw [hgone] at hsome
  cases hsome

theorem entry_desc (hinv : KernelInv g noHand noHand s) (hmaster : ¬ g.NoMaster v.proc)
    (htable : g.place (.table v.proc v.slot) ≠ .lost) : s.entry v = g.desc v := by
  rw [entry, hinv.descriptor_eq hmaster htable]
  split
  · rename_i hgone
    rw [Layout.desc, hinv.cells_blank (.inl hgone)]
    rfl
  · rfl

theorem entry_eq (hinv : KernelInv g noHand noHand s) (hsound : g.Sound)
    (hm : g.place (.master v.proc) = .frame m) : s.entry v = g.desc v :=
  hinv.entry_desc (not_noMaster hm) (hsound _ _ m hm)

theorem descriptor_inseg (hinv : KernelInv g noHand noHand s) (hsound : g.Sound)
    (hm : g.place (.master v.proc) = .frame m) (hinseg : (g.desc v).getInseg = true) :
    s.descriptor v = some (g.desc v) := by
  rw [hinv.descriptor_eq (not_noMaster hm) (hsound _ _ m hm), if_neg]
  intro hgone
  rw [hinv.inseg_nowhere (.inl hgone)] at hinseg
  cases hinseg

/-- Where an operation on another page leaves the tables of a page's process: none of them
is `lost` that was not. -/
theorem undisturbed {loose : KTable → Prop} {mine : Nat → Prop} {but : LPage → Prop}
    (hinv : KernelInv g noHand noHand s) (hinv' : KernelInv g' noHand noHand s')
    (hsound' : g'.Sound) (hcarried : Carried loose mine but g s g' s') (hbut : ¬ but v)
    (hmaster : ¬ g.NoMaster v.proc) (htable : g.place (.table v.proc v.slot) ≠ .lost)
    (hstays : (∃ m, g.place (.master v.proc) = .frame m) →
      ∃ m, g'.place (.master v.proc) = .frame m)
    (hmine : mine v.proc → ∃ m, g.place (.master v.proc) = .frame m) : s.Undisturbed s' v := by
  have hafter : ¬ g'.NoMaster v.proc ∧ g'.place (.table v.proc v.slot) ≠ .lost := by
    by_cases hframe : ∃ m, g.place (.master v.proc) = .frame m
    · obtain ⟨m, hm⟩ := hstays hframe
      exact ⟨not_noMaster hm, hsound' _ _ m hm⟩
    · have hnot : ¬ mine v.proc := fun h => hframe (hmine h)
      obtain ⟨_, hplace⟩ := hcarried.away v.proc hnot fun m hm => hframe ⟨m, hm⟩
      exact ⟨fun hnone => hmaster (hcarried.dead v.proc hnot hnone).1, by rwa [hplace]⟩
  have hkept := hcarried.pages v hbut
  have hbefore := hinv.entry_desc hmaster htable
  have hnow := hinv'.entry_desc hafter.1 hafter.2
  constructor
  · rw [hbefore, hnow]
    exact hkept.sameRights
  · rw [hbefore, hnow]
    exact hkept.2
  · rw [hbefore, hnow]
    exact fun hshared => hkept.desc_eq (Copied.not_resident hshared)

end KernelInv

end VirtualMemory

import VirtualMemory.FrameAccounts
import VirtualMemory.SharedSegments

/-!
# The ranges of a process's segments

Segments are recorded by their start page and length, while the descriptors of their pages
are chosen by bits of the addresses. Where a record says what the range is, the overlap
test, which compares a byte address with a page number, errs on the safe side, and the
segments of a process have no page in common. `load_segment` records its start page with
ten bits, a length of `2 ^ 14` is recorded as none, and a range that runs past the last
page goes on at the first: such a segment is not found by the next overlap test.
-/

namespace VirtualMemory

open Function UserSpace KernelSystem PageTableL2Entry

/-- A range that ends before the address space does and has a length that is recorded. -/
def Fitting (startAddr size : Nat) : Prop :=
  startAddr / 2 ^ 10 % 2 ^ 14 + size ≤ 2 ^ 14 ∧ size < 2 ^ 14

instance (startAddr size : Nat) : Decidable (Fitting startAddr size) :=
  inferInstanceAs (Decidable (_ ∧ _))

/-- The live segments of a process are disjoint ranges that cover its pages. -/
structure RangesApart (g : Layout) (h : Nat) : Prop where
  bound : ∀ n, (g.segment h n).getKind ≠ .free →
    (g.segment h n).start + (g.segment h n).getLength ≤ 16384
  apart : ∀ n n', n ≠ n' → (g.segment h n).getKind ≠ .free → (g.segment h n').getKind ≠ .free →
    (g.segment h n).start + (g.segment h n).getLength ≤ (g.segment h n').start ∨
      (g.segment h n').start + (g.segment h n').getLength ≤ (g.segment h n).start
  covered : ∀ v, v.proc = h → (g.desc v).getInseg = true → ∃ n,
    (g.segment h n).getKind ≠ .free ∧ (g.segment h n).start ≤ v.number ∧
      v.number < (g.segment h n).start + (g.segment h n).getLength

/-- The number of a page of an entry of the segment table. -/
theorem number_entryPage (e : SegTableEntry) (h i : Nat) :
    (entryPage e h i).number = (e.start + i) % 16384 := by
  rw [entryPage, number_pageAddr, pageSize, Nat.mul_div_cancel _ (by decide)]

theorem number_of_inRange {h startAddr size : Nat} {v : LPage} (hv : InRange h startAddr size v)
    (hfit : startAddr / 2 ^ 10 % 2 ^ 14 + size ≤ 2 ^ 14) :
    startAddr / 2 ^ 10 % 2 ^ 14 ≤ v.number ∧
      v.number < startAddr / 2 ^ 10 % 2 ^ 14 + size := by
  obtain ⟨i, hi, rfl⟩ := hv
  rw [number_pageAddr]
  omega

/-- What the overlap test says of a range that is recorded as it is. -/
theorem apart_of_overlaps {e : SegTableEntry} {startAddr size : Nat} (haddr : startAddr < 2 ^ 32)
    (halign : startAddr % pageSize = 0) (hfit : startAddr / 2 ^ 10 % 2 ^ 14 + size ≤ 2 ^ 14)
    (hkind : e.getKind ≠ .free) (hbound : e.start + e.getLength ≤ 16384)
    (hover : overlaps e (startAddr / 2 ^ 10 % 2 ^ 14) startAddr size = false) :
    e.start + e.getLength ≤ startAddr / 2 ^ 10 % 2 ^ 14 ∨
      startAddr / 2 ^ 10 % 2 ^ 14 + size ≤ e.start := by
  unfold pageSize at halign
  have hsum : startAddr + size ≤ 2 ^ 32 := by
    have hpages : startAddr / 2 ^ 10 + size ≤ 2 ^ 22 := by omega
    omega
  simp only [overlaps, hkind, ne_eq, not_false_eq_true, decide_true, Bool.true_and,
    Bool.not_eq_false', Bool.or_eq_true, decide_eq_true_eq] at hover
  obtain hbefore | hafter := hover
  · omega
  · have hpos : 0 < startAddr + size := by
      by_contra hzero
      have hnone : startAddr + size = 0 := by omega
      rw [hnone] at hafter
      omega
    rw [show startAddr + size + (2 ^ 32 - 1) = startAddr + size - 1 + 2 ^ 32 by omega,
      Nat.add_mod_right, Nat.mod_eq_of_lt (by omega)] at hafter
    have hpage : startAddr / 2 ^ 10 % 2 ^ 14 ≤ startAddr :=
      (Nat.mod_le _ _).trans (Nat.div_le_self _ _)
    right
    omega

namespace RangesApart

variable {g g' : Layout} {s s' : KernelSystem} {h startAddr size : Nat} {kind : KindEnum}

/-- No page of a range that passes the overlap test is in a segment. -/
theorem clear (hapart : RangesApart g h) (haddr : startAddr < 2 ^ 32)
    (halign : startAddr % pageSize = 0) (hfit : startAddr / 2 ^ 10 % 2 ^ 14 + size ≤ 2 ^ 14)
    (hover : ∀ n, overlaps (g.segment h n) (startAddr / 2 ^ 10 % 2 ^ 14) startAddr size = false) :
    ∀ v, InRange h startAddr size v → (g.desc v).getInseg = false := by
  intro v hv
  by_contra hinseg
  have hproc : v.proc = h := by
    obtain ⟨i, _, rfl⟩ := hv
    rfl
  obtain ⟨n, hkind, hle, hlt⟩ := hapart.covered v hproc (by simpa using hinseg)
  have hrange := number_of_inRange hv hfit
  have hdisjoint := apart_of_overlaps haddr halign hfit hkind (hapart.bound n hkind) (hover n)
  omega

/-- A segment whose record says what its range is joins the others. -/
theorem create (hapart : RangesApart g h) (haddr : startAddr < 2 ^ 32)
    (halign : startAddr % pageSize = 0) (hfit : Fitting startAddr size) (hlive : kind ≠ .free)
    (hnew : NewSegment g h (startAddr / 2 ^ 10 % 2 ^ 14) startAddr size kind g')
    (hrights : ∀ v, v.proc = h → ¬ InRange h startAddr size v →
      SameRights (g.desc v) (g'.desc v)) : RangesApart g' h := by
  obtain ⟨n₀, hfree, hentry⟩ := hnew.entry
  have hfits := hfit.1
  have hnewest : (g'.segment h n₀).start = startAddr / 2 ^ 10 % 2 ^ 14 ∧
      (g'.segment h n₀).getLength = size ∧ (g'.segment h n₀).getKind = kind := by
    rw [hentry n₀, if_pos rfl]
    unfold Working.recorded
    have hsize := hfit.2
    refine ⟨?_, ?_, ?_⟩
    · rw [SegTableEntry.start_setLength, SegTableEntry.start_setKind,
        SegTableEntry.start_setStartPage]
      omega
    · rw [SegTableEntry.getLength_setLength]
      omega
    · rw [SegTableEntry.getKind_setLength, SegTableEntry.getKind_setKind]
  obtain ⟨hstart, hlength, hkind⟩ := hnewest
  have hother : ∀ n, n ≠ n₀ → g'.segment h n = g.segment h n := fun n hn => by
    rw [hentry n, if_neg hn]
  have hapart₀ : ∀ n, n ≠ n₀ → (g.segment h n).getKind ≠ .free →
      (g.segment h n).start + (g.segment h n).getLength ≤ startAddr / 2 ^ 10 % 2 ^ 14 ∨
        startAddr / 2 ^ 10 % 2 ^ 14 + size ≤ (g.segment h n).start := fun n _ hn =>
    apart_of_overlaps haddr halign hfits hn (hapart.bound n hn) (hnew.clear n)
  refine ⟨fun n hn => ?_, fun n n' hne hn hn' => ?_, fun v hv hinseg => ?_⟩
  · by_cases hn₀ : n = n₀
    · subst n
      omega
    · rw [hother n hn₀] at hn ⊢
      exact hapart.bound n hn
  · by_cases hn₀ : n = n₀
    · subst n
      rw [hother n' (Ne.symm hne)] at hn' ⊢
      have := hapart₀ n' (Ne.symm hne) hn'
      omega
    · by_cases hn₁ : n' = n₀
      · subst n'
        rw [hother n hn₀] at hn ⊢
        have := hapart₀ n hn₀ hn
        omega
      · rw [hother n hn₀] at hn ⊢
        rw [hother n' hn₁] at hn' ⊢
        exact hapart.apart n n' hne hn hn'
  · by_cases hrange : InRange h startAddr size v
    · have hnumber := number_of_inRange hrange hfits
      exact ⟨n₀, hkind ▸ hlive, by omega, by omega⟩
    · rw [(hrights v hv hrange).inseg] at hinseg
      obtain ⟨n, hn, hle, hlt⟩ := hapart.covered v hv hinseg
      have hn₀ : n ≠ n₀ := fun heq => hn (heq ▸ hfree)
      refine ⟨n, ?_⟩
      rw [hother n hn₀]
      exact ⟨hn, hle, hlt⟩

/-- A segment that is removed leaves the others what they were. -/
theorem remove {n : Fin 192} (hapart : RangesApart g h) (hremoved : Working.Removed g h n g')
    (hrights : ∀ v, v.proc = h → ¬ InRange h ((g.segment h n).start * pageSize)
      (g.segment h n).getLength v → SameRights (g.desc v) (g'.desc v)) : RangesApart g' h := by
  have hother : ∀ n', (g'.segment h n').getKind ≠ .free →
      n' ≠ n ∧ g'.segment h n' = g.segment h n' := by
    intro n' hkind
    have hentry := hremoved.entry n'
    split at hentry
    · rw [hentry, SegTableEntry.getKind_setKind] at hkind
      exact absurd rfl hkind
    · rename_i hn
      exact ⟨hn, hentry⟩
  refine ⟨fun n' hkind => ?_, fun n₁ n₂ hne hkind₁ hkind₂ => ?_, fun v hv hinseg => ?_⟩
  · have hsame := (hother n' hkind).2
    rw [hsame] at hkind ⊢
    exact hapart.bound n' hkind
  · have hsame₁ := (hother n₁ hkind₁).2
    have hsame₂ := (hother n₂ hkind₂).2
    rw [hsame₁] at hkind₁ ⊢
    rw [hsame₂] at hkind₂ ⊢
    exact hapart.apart n₁ n₂ hne hkind₁ hkind₂
  · have hout : ¬ InRange h ((g.segment h n).start * pageSize) (g.segment h n).getLength v := by
      intro hrange
      rw [hremoved.pages v hrange] at hinseg
      cases hinseg
    rw [(hrights v hv hout).inseg] at hinseg
    obtain ⟨n', hkind, hle, hlt⟩ := hapart.covered v hv hinseg
    have hn : n' ≠ n := by
      rintro rfl
      refine hout ⟨v.number - (g.segment h n').start, by omega, ?_⟩
      refine LPage.eq_of_number hv ?_
      have hnumber := number_entryPage (g.segment h n') h (v.number - (g.segment h n').start)
      have hlast := hapart.bound n' hkind
      rw [entryPage] at hnumber
      rw [hnumber]
      omega
    have hsame := hremoved.entry n'
    rw [if_neg hn] at hsame
    exact ⟨n', hsame ▸ hkind, hsame ▸ hle, hsame ▸ hlt⟩

/-- Calls that create nothing of the process's own leave its segments alone. -/
theorem keep {loose : KTable → Prop} {mine : Nat → Prop} {but : LPage → Prop}
    (hapart : RangesApart g h) (hcarried : Carried loose mine but g s g' s') (hmine : ¬ mine h)
    (hbut : ∀ v, but v → v.proc ≠ h) : RangesApart g' h := by
  have hsame : ∀ n, g'.segment h n = g.segment h n := fun n =>
    congrArg PageTableL2Entry.toSeg (hcarried.segs h n hmine)
  refine ⟨fun n => ?_, fun n n' => ?_, fun v hv hinseg => ?_⟩
  · rw [hsame]
    exact hapart.bound n
  · rw [hsame, hsame]
    exact hapart.apart n n'
  · rw [(hcarried.pages v fun hb => hbut v hb hv).sameRights.inseg] at hinseg
    obtain ⟨n, hn⟩ := hapart.covered v hv hinseg
    exact ⟨n, by rwa [hsame]⟩

/-- A process without page tables and segments. -/
theorem of_new (hinv : KernelInv g noHand noHand s)
    (hslots : ∀ slot, g.place (.table h slot) = .gone)
    (hfree : ∀ n, (g.segment h n).getKind = .free) : RangesApart g h := by
  refine ⟨fun n hkind => absurd (hfree n) hkind, fun n _ _ hkind => absurd (hfree n) hkind,
    fun v hv hinseg => ?_⟩
  rw [hinv.inseg_nowhere (.inl (hv ▸ hslots v.slot))] at hinseg
  cases hinseg

end RangesApart

/-- The range of a segment that a call creates, and the page number it records. -/
structure NewRange where
  proc : Nat
  ordinal : Nat
  startAddr : Nat
  size : Nat

/-- The record says where the segment is. -/
def NewRange.Recordable (r : NewRange) : Prop :=
  r.ordinal = r.startAddr / 2 ^ 10 % 2 ^ 14 ∧ Fitting r.startAddr r.size

instance (r : NewRange) : Decidable r.Recordable := inferInstanceAs (Decidable (_ ∧ _))

namespace KernelOp

/-- The segment that a call is to create. -/
def newRange : KernelOp → Option NewRange
  | .createSegment h startAddr size _ => some ⟨h, startAddr / 2 ^ 10 % 2 ^ 14, startAddr, size⟩
  | .loadSegment h startAddr size _ _ => some ⟨h, startAddr / 2 ^ 10 % 2 ^ 10, startAddr, size⟩
  | .createSharedSegment h startAddr size _ _ =>
      some ⟨h, startAddr / 2 ^ 10 % 2 ^ 14, startAddr, size⟩
  | _ => none

/-- A call that creates a segment of the process, at any 32-bit address, or removes one. -/
def SegmentCall (h : Nat) : KernelOp → Prop
  | .createSegment h' startAddr _ _ | .loadSegment h' startAddr _ _ _
  | .createSharedSegment h' startAddr _ _ _ => h' = h ∧ startAddr < 2 ^ 32
  | .deleteSegment h' _ => h' = h
  | _ => False

/-- A segment is refused by the tests on its arguments or recorded where it is. -/
def Recorded (s : KernelSystem) (op : KernelOp) : Prop :=
  ∀ r ∈ op.newRange, s.refuses r.proc r.ordinal r.startAddr r.size = true ∨ r.Recordable

/-- The call creates the segment, with status OK. -/
def Creates (s : KernelSystem) : KernelOp → Prop
  | .createSegment h startAddr size accType =>
      ∃ s', s.createSegment h startAddr size accType = .ok (.ok, s')
  | .loadSegment h startAddr size accType content =>
      ∃ s', s.loadSegment h startAddr size accType content = .ok (.ok, s')
  | .createSharedSegment h startAddr size name accType =>
      ∃ s', s.createSharedSegment h startAddr size name accType = .ok (.ok, s')
  | _ => False

/-- The call writes no descriptor of a page that is in a segment. -/
def WritesClear (s : KernelSystem) (op : KernelOp) : Prop :=
  ∀ r ∈ op.newRange, s.Clear r.proc r.startAddr r.size

end KernelOp

/-- Entry `n` of the segment table is live, and the page is one of its range. -/
def KernelSystem.Belongs (s : KernelSystem) (v : LPage) (n : Fin 192) : Prop :=
  ∃ e, s.segmentEntry v.proc n = some e ∧ e.getKind ≠ .free ∧
    ∃ i, i < e.getLength ∧ v = entryPage e v.proc i

theorem KernelInv.createSharedSegment_refused {g : Layout} {s s' : KernelSystem}
    {h m startAddr size : Nat} {name : String} {accType : AccessType} {status : Status}
    (hinv : KernelInv g noHand noHand s) (hm : g.place (.master h) = .frame m)
    (hrefuses : s.refuses h (startAddr / 2 ^ 10 % 2 ^ 14) startAddr size = true)
    (hcreate : s.createSharedSegment h startAddr size name accType = .ok (status, s')) :
    status = .trap := by
  obtain ⟨p, hp, hpcb, hat⟩ := hinv.pcb_ok hm
  have hp' : (s.ksLockPage m).pcb h = .ok p := hp
  rw [refuses, hpcb, Option.any_some, Bool.or_eq_true, Bool.not_eq_true'] at hrefuses
  unfold createSharedSegment at hcreate
  simp only [hp, Outcome.ok_bind, hinv.masterTableLock_ok hm, hp'] at hcreate
  obtain hargs | hover := hrefuses
  · simp only [hargs, Bool.not_false, if_true] at hcreate
    cases hcreate
    rfl
  · have hover' : (s.ksLockPage m).anyOverlap p (startAddr / 2 ^ 10 % 2 ^ 14) startAddr size =
        true := hover
    simp only [hover', if_true] at hcreate
    split at hcreate <;>
    · cases hcreate
      rfl

/-- A process at work on its segments, between two calls. -/
structure Ranged (g : Layout) (h m : Nat) (s : KernelSystem) : Prop where
  inv : KernelInv g noHand noHand s
  sound : g.Sound
  master : g.place (.master h) = .frame m
  ranges : RangesApart g h

namespace Ranged

variable {g : Layout} {s s' : KernelSystem} {h m ordinal startAddr size : Nat} {status : Status}
  {accType : AccessType}

/-- What a segment that is not refused has passed. -/
theorem not_refused (hranged : Ranged g h m s)
    (hnot : s.refuses h ordinal startAddr size ≠ true) : startAddr % pageSize = 0 ∧
      ∀ n, overlaps (g.segment h n) ordinal startAddr size = false := by
  obtain ⟨p, _, hpcb, hat⟩ := hranged.inv.pcb_ok hranged.master
  simp only [refuses, hpcb, Option.any_some, ne_eq, Bool.or_eq_true, not_or] at hnot
  obtain ⟨hargs, hover⟩ := hnot
  simp only [segmentArgs, Bool.not_eq_true, Bool.not_eq_false', Bool.and_eq_true,
    decide_eq_true_eq] at hargs
  refine ⟨hargs.2, fun n => ?_⟩
  by_contra hn
  exact hover ((hranged.inv.anyOverlap_eq hranged.master hat).mpr ⟨n, by simpa using hn⟩)

/-- The range of a segment that is created is clear. -/
theorem clear (hranged : Ranged g h m s) (haddr : startAddr < 2 ^ 32)
    (hrecorded : s.refuses h ordinal startAddr size = true ∨
      NewRange.Recordable ⟨h, ordinal, startAddr, size⟩)
    (hrefused : s.refuses h ordinal startAddr size = true → status = .trap) (hok : status = .ok) :
    startAddr % pageSize = 0 ∧ NewRange.Recordable ⟨h, ordinal, startAddr, size⟩ ∧
      ∀ v, InRange h startAddr size v → (g.desc v).getInseg = false := by
  have hnot : s.refuses h ordinal startAddr size ≠ true := fun hrefuses => by
    cases hok.symm.trans (hrefused hrefuses)
  obtain ⟨halign, hover⟩ := hranged.not_refused hnot
  have hrecordable := hrecorded.resolve_left hnot
  refine ⟨halign, hrecordable, hranged.ranges.clear haddr halign hrecordable.2.1 ?_⟩
  rw [← (show ordinal = _ from hrecordable.1)]
  exact hover

/-- A private segment is created, or refused. -/
theorem created {g' : Layout} {content : Nat → Option Page} (hranged : Ranged g h m s)
    (haddr : startAddr < 2 ^ 32)
    (hclear : status = .ok → startAddr % pageSize = 0 ∧
      NewRange.Recordable ⟨h, ordinal, startAddr, size⟩ ∧
      ∀ v, InRange h startAddr size v → (g.desc v).getInseg = false)
    (hinv : KernelInv g' noHand noHand s') (hm : g'.place (.master h) = .frame m)
    (hcreated : SegmentCreated g s h ordinal startAddr size accType content g' s' status) :
    Ranged g' h m s' := by
  obtain ⟨_, hcarried, rfl⟩ | ⟨hok, hnew, hcarried, _⟩ := hcreated
  · exact ⟨hinv, hranged.sound, hm, hranged.ranges.keep hcarried id nofun⟩
  · obtain ⟨halign, hrecordable, _⟩ := hclear hok
    rw [(show ordinal = _ from hrecordable.1)] at hnew
    exact ⟨hinv, hcarried.sound hranged.sound, hm, hranged.ranges.create haddr halign
      hrecordable.2 (by decide) hnew fun v _ hv => (hcarried.pages v hv).sameRights⟩

/-- A call on the segments of the process keeps them apart. -/
theorem step {levels : Nat} {op : KernelOp} (hranged : Ranged g h m s) (hcall : op.SegmentCall h)
    (hrecorded : op.Recorded s) (hstep : op.Step levels s s') :
    ∃ g', Ranged g' h m s' := by
  cases op with
  | createSegment h' startAddr size accType =>
      obtain ⟨rfl, haddr⟩ := hcall
      obtain ⟨⟨status, s₁⟩, hcreate, hret⟩ := Outcome.bind_ok hstep
      cases hret
      have hclear := hranged.clear haddr (hrecorded _ rfl) fun hrefuses =>
        show status = .trap from
          Plain.newSegment_refused hranged.inv hranged.master hrefuses hcreate
      obtain ⟨g', hinv', hm', _, hcreated⟩ := hranged.inv.createSegment_inv hranged.sound
        hranged.master (fun hok => (hclear hok).2.2) hcreate
      exact ⟨g', hranged.created haddr hclear hinv' hm' hcreated⟩
  | loadSegment h' startAddr size accType content =>
      obtain ⟨rfl, haddr⟩ := hcall
      obtain ⟨⟨status, s₁⟩, hload, hret⟩ := Outcome.bind_ok hstep
      cases hret
      have hclear := hranged.clear haddr (hrecorded _ rfl) fun hrefuses =>
        show status = .trap from Plain.newSegment_refused hranged.inv hranged.master hrefuses hload
      obtain ⟨g', hinv', hm', _, hcreated⟩ := hranged.inv.loadSegment_inv hranged.sound
        hranged.master (fun hok => (hclear hok).2.2) hload
      exact ⟨g', hranged.created haddr hclear hinv' hm' hcreated⟩
  | createSharedSegment h' startAddr size name accType =>
      obtain ⟨rfl, haddr⟩ := hcall
      obtain ⟨⟨status, s₁⟩, hcreate, hret⟩ := Outcome.bind_ok hstep
      cases hret
      have hclear := hranged.clear haddr (hrecorded _ rfl) fun hrefuses =>
        show status = .trap from
          hranged.inv.createSharedSegment_refused hranged.master hrefuses hcreate
      have hold := hranged.inv.not_madeSince hranged.master
      obtain ⟨g', hinv', hm', _, ⟨_, hcarried⟩ | ⟨hok, hnew, hcarried, _⟩⟩ :=
        hranged.inv.createSharedSegment_inv hranged.sound hranged.master
          (fun hok => (hclear hok).2.2) hcreate
      · exact ⟨g', hinv', hcarried.sound hranged.sound, hm',
          hranged.ranges.keep hcarried hold fun v hv heq => hold (heq ▸ hv)⟩
      · obtain ⟨halign, hrecordable, _⟩ := hclear hok
        refine ⟨g', hinv', hcarried.sound hranged.sound, hm', hranged.ranges.create haddr halign
          hrecordable.2 (by decide) hnew fun v hproc hv => (hcarried.pages v ?_).sameRights⟩
        rintro (hrange | hmade)
        · exact hv hrange
        · exact hold (hproc ▸ hmade)
  | deleteSegment h' startAddr =>
      obtain rfl := hcall
      obtain ⟨⟨status, s₁⟩, hdelete, hret⟩ := Outcome.bind_ok hstep
      cases hret
      obtain ⟨g', hinv', hm', _, ⟨hcarried, rfl⟩ | ⟨n, hremoved, hcarried⟩⟩ :=
        hranged.inv.deleteSegment_inv hranged.sound hranged.master hdelete
      · exact ⟨g', hinv', hranged.sound, hm', hranged.ranges⟩
      · exact ⟨g', hinv', hcarried.sound hranged.sound, hm', hranged.ranges.remove hremoved
          fun v _ hv => (hcarried.pages v hv).sameRights⟩
  | _ => exact absurd hcall id

/-- A page belongs to the entry whose recorded range its number is in. -/
theorem belongs_iff (hranged : Ranged g h m s) {v : LPage} {n : Fin 192} (hv : v.proc = h) :
    s.Belongs v n ↔ (g.segment h n).getKind ≠ .free ∧ (g.segment h n).start ≤ v.number ∧
      v.number < (g.segment h n).start + (g.segment h n).getLength := by
  have hentry : s.segmentEntry v.proc n = some (g.segment h n) :=
    hv ▸ hranged.inv.segmentEntry_eq (KernelInv.not_noMaster (hv ▸ hranged.master))
  constructor
  · rintro ⟨e, he, hkind, i, hi, heq⟩
    rw [hentry] at he
    cases he
    have hnumber := number_entryPage (g.segment h n) v.proc i
    rw [← heq] at hnumber
    have hbound := hranged.ranges.bound n hkind
    exact ⟨hkind, by omega, by omega⟩
  · rintro ⟨hkind, hle, hlt⟩
    refine ⟨_, hentry, hkind, v.number - (g.segment h n).start, by omega, ?_⟩
    refine LPage.eq_of_number rfl ?_
    rw [number_entryPage]
    have hbound := hranged.ranges.bound n hkind
    omega

/-- A page that is in a segment belongs to one live entry. -/
theorem belongs_one (hranged : Ranged g h m s) {v : LPage} (hv : v.proc = h)
    (hinseg : s.InSegment v) : ∃! n, s.Belongs v n := by
  rw [hranged.inv.inSegment_iff hranged.sound (hv ▸ hranged.master)] at hinseg
  obtain ⟨n, hn⟩ := hranged.ranges.covered v hv hinseg
  refine ⟨n, (hranged.belongs_iff hv).mpr hn, fun n' hn' => ?_⟩
  obtain ⟨hkind', hle', hlt'⟩ := (hranged.belongs_iff hv).mp hn'
  by_contra hne
  have := hranged.ranges.apart n' n hne hkind' hn.1
  omega

/-- A segment that is created lies on no page of another. -/
theorem writes_clear {op : KernelOp} (hranged : Ranged g h m s) (hcall : op.SegmentCall h)
    (hrecorded : op.Recorded s) (hcreates : op.Creates s) : op.WritesClear s := by
  have hclear : ∀ startAddr size, (∀ v, InRange h startAddr size v → (g.desc v).getInseg = false) →
      s.Clear h startAddr size := by
    intro startAddr size hrange i hi hinseg
    rw [hranged.inv.inSegment_iff hranged.sound hranged.master, hrange _ ⟨i, hi, rfl⟩] at hinseg
    cases hinseg
  intro r hr
  cases op with
  | createSegment h' startAddr size accType =>
      obtain ⟨rfl, haddr⟩ := hcall
      cases hr
      obtain ⟨s', hcreate⟩ := hcreates
      exact hclear _ _ (hranged.clear haddr (hrecorded _ rfl) (fun hrefuses =>
        Plain.newSegment_refused hranged.inv hranged.master hrefuses hcreate) rfl).2.2
  | loadSegment h' startAddr size accType content =>
      obtain ⟨rfl, haddr⟩ := hcall
      cases hr
      obtain ⟨s', hload⟩ := hcreates
      exact hclear _ _ (hranged.clear haddr (hrecorded _ rfl) (fun hrefuses =>
        Plain.newSegment_refused hranged.inv hranged.master hrefuses hload) rfl).2.2
  | createSharedSegment h' startAddr size name accType =>
      obtain ⟨rfl, haddr⟩ := hcall
      cases hr
      obtain ⟨s', hcreate⟩ := hcreates
      exact hclear _ _ (hranged.clear haddr (hrecorded _ rfl) (fun hrefuses =>
        hranged.inv.createSharedSegment_refused hranged.master hrefuses hcreate) rfl).2.2
  | _ => cases hr

end Ranged

namespace KernelOp

instance (h : Nat) (op : KernelOp) : Decidable (op.SegmentCall h) :=
  match op with
  | .createSegment h' startAddr _ _ | .loadSegment h' startAddr _ _ _
  | .createSharedSegment h' startAddr _ _ _ =>
      inferInstanceAs (Decidable (h' = h ∧ startAddr < 2 ^ 32))
  | .deleteSegment h' _ => inferInstanceAs (Decidable (h' = h))
  | .createProcess | .cloneProcess _ | .deleteProcess _ | .disconnectSharedSegment ..
  | .deleteSharedSegment _ | .pageFault .. | .access .. => instDecidableFalse

instance (s : KernelSystem) (op : KernelOp) : Decidable (op.Recorded s) :=
  inferInstanceAs (Decidable (∀ r ∈ op.newRange, _))

theorem ranged_of_run {levels h : Nat} {before start s : KernelSystem} {ops : List KernelOp}
    (hcons : before.Consistent) (hcreate : before.createProcess = .ok (h, start))
    (hrun : Run (fun s (op : KernelOp) s' => op.SegmentCall h ∧ op.Recorded s ∧
      op.Step levels s s') start ops s) : ∃ g m, Ranged g h m s := by
  obtain ⟨g₀, hinv₀, hsound₀⟩ := hcons
  obtain ⟨g, m, hinv, hm, hcarried, _, hslots, hfree⟩ := hinv₀.createProcess_inv hsound₀ hcreate
  have hstart : Ranged g h m start :=
    ⟨hinv, hcarried.sound hsound₀, hm, .of_new hinv hslots hfree⟩
  refine hrun.invariant (fun s => ∃ g m, Ranged g h m s) ?_ ⟨g, m, hstart⟩
  rintro s op s' ⟨g, m, hranged⟩ ⟨hcall, hrecorded, hstep⟩
  obtain ⟨g', hranged'⟩ := hranged.step hcall hrecorded hstep
  exact ⟨g', m, hranged'⟩

/-- In every state that calls on the segments of a new process lead to, each of which is
refused or records its segment where it is, every page that is in a segment belongs to one
live entry, and the next segment is created on other pages. -/
theorem segments_apart {levels h : Nat} {before start s : KernelSystem} {ops : List KernelOp}
    (hcons : before.Consistent) (hcreate : before.createProcess = .ok (h, start))
    (hrun : Run (fun s (op : KernelOp) s' => op.SegmentCall h ∧ op.Recorded s ∧
      op.Step levels s s') start ops s) :
    (∀ v : LPage, v.proc = h → s.InSegment v → ∃! n, s.Belongs v n) ∧
      ∀ op : KernelOp, op.SegmentCall h → op.Recorded s → op.Creates s → op.WritesClear s := by
  obtain ⟨g, m, hranged⟩ := ranged_of_run hcons hcreate hrun
  exact ⟨fun v hv => hranged.belongs_one hv, fun op hcall => hranged.writes_clear hcall⟩

/-- A private segment, which is removed, a mapping of a shared one, and one behind it. -/
theorem segments_apart_three : ∃ s : KernelSystem, s.InSegment (pageOf 0 5120) ∧
    (∀ v : LPage, v.proc = 0 → s.InSegment v → ∃! n, s.Belongs v n) := by
  have hruns : (runFirst (fun s op _ => decide (op.SegmentCall 0 ∧ op.Recorded s)) 1 4 4 []
      [.createSegment 0 0 2 .readWrite, .createSharedSegment 0 4096 1 "s" .readWrite,
        .deleteSegment 0 0, .loadSegment 0 5120 1 .read fun _ => blankPage]).any (fun r =>
      decide (r.2.1 = 0) && decide (r.2.2.2.InSegment (pageOf 0 5120))) = true := by
    decide +kernel
  obtain ⟨⟨before, h, start, s⟩, hr, hcheck⟩ := (Option.any_eq_true _ _).mp hruns
  simp only [Bool.and_eq_true, decide_eq_true_eq] at hcheck
  obtain ⟨rfl, hinseg⟩ := hcheck
  obtain ⟨hboot, hcreate, hrun⟩ := runFirst_run hr
  have hcons : before.Consistent :=
    ⟨_, boot_inv (by decide) (by decide) hboot, Layout.sound_none⟩
  have hsteps : Run (fun s (op : KernelOp) s' => op.SegmentCall 0 ∧ op.Recorded s ∧
      op.Step 2 s s') start _ s := hrun.weaken fun _ _ _ h => by
    obtain ⟨hcall, hrecorded⟩ := of_decide_eq_true h.1
    exact ⟨hcall, hrecorded, h.2⟩
  exact ⟨s, hinseg, (segments_apart hcons hcreate hsteps).1⟩

/-- A segment that was loaded at page 1024 is recorded at page 0: its page belongs to no
entry, and another segment is created on it. -/
theorem segments_not_apart : ¬ ∀ (h : Nat) (before start s : KernelSystem) (ops : List KernelOp),
    before.Consistent → before.createProcess = .ok (h, start) →
    Run (fun s (op : KernelOp) s' => op.SegmentCall h ∧ op.Step 2 s s') start ops s →
    (∀ v : LPage, v.proc = h → s.InSegment v → ∃! n, s.Belongs v n) ∧
      ∀ op : KernelOp, op.SegmentCall h → op.Creates s → op.WritesClear s := by
  intro hall
  have hruns : (runFirst (fun _ op _ => decide (op.SegmentCall 0)) 1 2 2 []
      [.loadSegment 0 (1024 * 1024) 1 .read fun _ => blankPage]).any (fun r =>
      decide (r.2.1 = 0) && decide (r.2.2.2.InSegment (pageOf 0 (1024 * 1024))) &&
        Outcome.holds (r.2.2.2.createSegment 0 (1024 * 1024) 1 .read) fun r =>
          decide (r.1 = .ok)) = true := by
    decide +kernel
  obtain ⟨⟨before, h, start, s⟩, hr, hcheck⟩ := (Option.any_eq_true _ _).mp hruns
  simp only [Bool.and_eq_true, decide_eq_true_eq] at hcheck
  obtain ⟨⟨rfl, hinseg⟩, hcreates⟩ := hcheck
  obtain ⟨hboot, hcreate, hrun⟩ := runFirst_run hr
  have hcons : before.Consistent :=
    ⟨_, boot_inv (by decide) (by decide) hboot, Layout.sound_none⟩
  obtain ⟨_, hclear⟩ := hall 0 before start s _ hcons hcreate
    (hrun.weaken fun _ _ _ h => ⟨of_decide_eq_true h.1, h.2⟩)
  obtain ⟨⟨status, s'⟩, hcreate', hok⟩ := Outcome.of_holds hcreates
  obtain rfl : status = .ok := of_decide_eq_true hok
  exact hclear (.createSegment 0 (1024 * 1024) 1 .read) ⟨rfl, by decide⟩ ⟨s', hcreate'⟩ _ rfl 0
    (by decide) hinseg

end KernelOp

end VirtualMemory

import VirtualMemory.MemoryRuns

/-!
# Clones are snapshots

A clone has the segments and the rights of its source, and its pages contain what those of the
source do. From then on they are pages of their own: what either process stores is in its own
copy, and the other one goes on reading what was there when the clone was made.
-/

namespace VirtualMemory

open Function UserSpace KernelSystem PageTableL2Entry FlatMemory

namespace KernelSystem

/-- The entries of the segments of a process, in the order of its table. -/
def occupied (s : KernelSystem) (h : Nat) : List SegTableEntry :=
  (List.finRange 192).filterMap fun n => (s.segmentEntry h n).filter (·.getKind ≠ .free)

/-- The control block of the shared segment that an entry maps. -/
def mapsTo (s s' : KernelSystem) (source : Nat) (e : SegTableEntry) : Option Nat :=
  (s.descriptor (entryPage e source 0)).bind fun d => s'.blockOf d.ssegInd.toNat

/-- A page that a descriptor gives to a process, and its copy. -/
structure CopiedPage (s s' : KernelSystem) (v v' : LPage) : Prop where
  descriptors : ∃ d d', s.descriptor v = some d ∧ s'.descriptor v' = some d' ∧ SameRights d d' ∧
    d'.getTbc = d.getTbc ∧ (d.getShared = true → d'.block = d.block ∧ d'.ssegInd = d.ssegInd)
  contents : s'.holds v' = s.holds v

/-- A process that is a copy of another one: it has the segments of the other's table, in the
same order, their pages, and no others, and it is a user of the shared ones. -/
structure CopiedFrom (s s' : KernelSystem) (source h : Nat) : Prop where
  fresh : s.pcbs h = none
  live : s'.HasMaster h
  entries : ∀ k : Fin 192, ∃ e', s'.segmentEntry h k = some e' ∧
    match (s.occupied source)[k.val]? with
    | some e => SameShape e e'
    | none => e'.getKind = .free
  pages : ∀ e ∈ s.occupied source, ∀ i, i < e.getLength →
    CopiedPage s s' (entryPage e source i) (entryPage e h i)
  rest : ∀ v d, v.proc = h → (∀ e ∈ s.occupied source, ∀ i, i < e.getLength → v ≠ entryPage e h i) →
    s'.descriptor v = some d → d.getInseg = false
  users : ∀ b, s'.sscbs b =
    (s.sscbs b).map (.join (newUsers h (mapsTo s s' source) (s.occupied source) b))
  segments : s'.ssegVec = s.ssegVec

/-- Nothing else changes. -/
structure ClonedFrom (s s' : KernelSystem) (source h : Nat) : Prop
    extends CopiedFrom s s' source h where
  others : ∀ v, v.proc ≠ h → s'.holds v = s.holds v ∧ ∀ d, s.descriptor v = some d →
    d.getInseg = true → ∃ d', s'.descriptor v = some d' ∧ SameRights d d' ∧
      (d.getShared = true → d' = d)

/-- The cluster of a page, in or out of memory. -/
def HasCluster (s : KernelSystem) (d : PageTableL2Entry) (c : Nat) : Prop :=
  d.Resident ∧ s.ot d.block = c ∧ c ≠ nullCluster ∨ d.PagedOut ∧ d.block = c

/-- No two pages have the same frame or the same cluster. -/
structure PagesApart (s : KernelSystem) : Prop where
  frames : ∀ v v' d d', s.descriptor v = some d → s.descriptor v' = some d' →
    d.Resident → d'.Resident → d.block = d'.block → v = v'
  clusters : ∀ v v' d d' c, s.descriptor v = some d → s.descriptor v' = some d' →
    s.HasCluster d c → s.HasCluster d' c → v = v'

end KernelSystem

namespace KernelInv

variable {g : Layout} {s : KernelSystem} {source m : Nat}

theorem pagesApart (hinv : KernelInv g noHand noHand s) (hsound : g.Sound)
    (hall : s.AllMasters) : s.PagesApart where
  frames v v' d d' hd hd' hr hr' heq := by
    obtain ⟨_, rfl⟩ := hall.desc hinv hsound hd
    obtain ⟨_, rfl⟩ := hall.desc hinv hsound hd'
    by_contra hne
    exact hinv.user.frames.ordinal_ne hr' hr hne heq
  clusters v v' d d' c hd hd' hc hc' := by
    obtain ⟨_, rfl⟩ := hall.desc hinv hsound hd
    obtain ⟨_, rfl⟩ := hall.desc hinv hsound hd'
    have hsame : ClusterHolder.page v = ClusterHolder.page v' :=
      hinv.user.clusters.ledger.inj (c := c) hc hc'
    injection hsame

theorem occupied_eq (hinv : KernelInv g noHand noHand s)
    (hm : g.place (.master source) = .frame m) :
    s.occupied source = (List.finRange 192).filterMap (g.taken source) := by
  unfold occupied
  congr 1
  funext n
  rw [hinv.segmentEntry_eq (not_noMaster hm), Layout.taken]
  by_cases hfree : (g.segment source n).getKind = .free
  · simp [hfree]
  · simp [hfree]

end KernelInv

theorem newUsers_congr {h b : Nat} {mapsTo mapsTo' : SegTableEntry → Option Nat}
    {taken : List SegTableEntry} (hsame : ∀ e ∈ taken, e.getKind = .occShared →
      0 < e.getLength → mapsTo e = mapsTo' e) :
    newUsers h mapsTo taken b = newUsers h mapsTo' taken b := by
  unfold newUsers
  congr 1
  refine List.filter_congr fun r hr => ?_
  have hmem : r.1 ∈ taken := by
    obtain ⟨e, k⟩ := r
    exact List.fst_mem_of_mem_zipIdx hr
  refine decide_eq_decide.mpr (and_congr_right fun hkind => and_congr_right fun hlen => ?_)
  rw [hsame r.1 hmem hkind hlen]

section Clone

variable {s s' : KernelSystem} {pid source h : Nat}

theorem copiedPage_of_copied {g g' : Layout} {m m' : Nat} {v v' : LPage}
    (hinv : KernelInv g noHand noHand s) (hsound : g.Sound) (hinv' : KernelInv g' noHand noHand s')
    (hsound' : g'.Sound) (hm : g.place (.master v.proc) = .frame m)
    (hm' : g'.place (.master v'.proc) = .frame m') (hinseg : (g.desc v).getInseg = true)
    (hcopied : Copied (g.desc v) (s.content (g.desc v)) s'.toUserSpace (g'.desc v')) :
    CopiedPage s s' v v' := by
  have hinseg' : (g'.desc v').getInseg = true := hcopied.rights.inseg.trans hinseg
  refine ⟨⟨_, _, hinv.descriptor_inseg hsound hm hinseg, hinv'.descriptor_inseg hsound' hm' hinseg',
    hcopied.rights, hcopied.tbc, hcopied.shared⟩, ?_⟩
  rw [hinv'.holds_eq hsound' (hinv'.hasMaster_iff.mpr ⟨m', hm'⟩),
    hinv.holds_eq hsound (hinv.hasMaster_iff.mpr ⟨m, hm⟩)]
  exact hcopied.content

/-- What `clone_process` makes, and what it leaves alone. -/
theorem KernelInv.cloneProcess_copied {g : Layout} {ms : Nat} (hinv : KernelInv g noHand noHand s)
    (hsound : g.Sound) (hpid : s.pcbVec.atIndex pid = .ok (some source))
    (hm : g.place (.master source) = .frame ms) (hintact : s.Intact source)
    (hclone : s.cloneProcess pid = .ok (h, s')) :
    ∃ g', KernelInv g' noHand noHand s' ∧ source ≠ h ∧
      Carried (Released h) (· = h) (·.proc = h) g s g' s' ∧
      g'.place (.master source) = .frame ms ∧
      (∀ x, x ≠ h → (s'.pcbs x).map KernelProcess.rest = (s.pcbs x).map KernelProcess.rest) ∧
      s.CopiedFrom s' source h := by
  have hapart := hinv.segmentsApart hsound hm hintact
  obtain ⟨g₀, s₀, mh, g', s₁, hne, hcarried₀, hadded, hprogress, hs'⟩ :=
    hinv.cloneProcess_inv hsound hpid hm hapart hclone
  obtain ⟨hinv', hmh, hcarried, hobjects⟩ := KernelInv.cloneProcess_end hcarried₀ hprogress
  rw [← hs'] at hinv' hcarried hobjects
  have hsound' := hcarried.sound hsound
  have hoccupied : s.occupied source = (List.finRange 192).filterMap (g₀.taken source) := by
    rw [hinv.occupied_eq hm]
    congr 1
    funext n
    have hsegment : g₀.segment source n = g.segment source n := by
      rw [Layout.segment, Layout.segment, hcarried₀.segs source n hne]
    rw [Layout.taken, Layout.taken, hsegment]
  have hkept : ∀ v, Kept s.toUserSpace (g.desc v) s₀.toUserSpace (g₀.desc v) := fun v =>
    hcarried₀.pages v id
  have hentry : ∀ e ∈ s.occupied source, ∃ n, g.segment source n = e ∧ e.getKind ≠ .free := by
    intro e he
    rw [hinv.occupied_eq hm] at he
    obtain ⟨n, _, htaken⟩ := List.mem_filterMap.mp he
    rw [Layout.taken] at htaken
    split at htaken
    · cases htaken
    · rename_i hkind
      cases htaken
      exact ⟨n, rfl, hkind⟩
  refine ⟨g', hinv', hne, hcarried, hprogress.locked.1, fun x hx => (hobjects.pcbs x).trans
    ((hprogress.objects.pcbs x).trans (hadded.pcbs x hx)), ?_⟩
  constructor
  case fresh =>
    cases hpcb : s.pcbs h with
    | none => rfl
    | some p =>
        have hlt := hinv.pcb_lt (show (s.pcbs h).isSome = true by rw [hpcb]; rfl)
        exact absurd hadded.handle (Nat.ne_of_lt hlt)
  case live => exact hinv'.hasMaster_iff.mpr ⟨mh, hmh⟩
  case entries =>
    intro k
    refine ⟨_, hinv'.segmentEntry_eq (KernelInv.not_noMaster hmh), ?_⟩
    rw [hoccupied]
    split
    · rename_i e he
      exact hprogress.copied k e he
    · rename_i hnone
      exact hprogress.unused k (List.getElem?_eq_none_iff.mp hnone)
  case pages =>
    intro e he i hi
    obtain ⟨n, rfl, hkind⟩ := hentry e he
    refine copiedPage_of_copied (v := entryPage (g.segment source n) source i) hinv hsound
      hinv' hsound' hm hmh (hapart.inside n i hkind hi) ?_
    have hcopied := (hprogress.pages _ (hoccupied ▸ he) i hi).of_kept (hkept _)
    rw [hs']
    exact hcopied
  case rest =>
    intro v d hv hnot hd
    rw [← hinv'.desc_of_descriptor hsound' (hv ▸ hmh) hd, hprogress.rest v hv (hoccupied ▸ hnot)]
    decide
  case users =>
    intro b
    rw [hobjects.sscbs, hprogress.users b, hadded.sscbs, hoccupied]
    rw [newUsers_congr fun e he hkind hlen => ?_]
    obtain ⟨n, rfl, hfree⟩ := hentry e (hoccupied ▸ he)
    have hinseg := hapart.inside n 0 hfree hlen
    have hshared := (hapart.shared n 0 hfree hlen).mpr hkind
    have hdescriptor := hinv.descriptor_inseg hsound
      (v := entryPage (g.segment source n) source 0) hm hinseg
    rw [mapsTo, hdescriptor, Option.bind_some, hobjects.blockOf, hprogress.objects.blockOf,
      KernelInv.desc_of_shared (hkept _) hshared]
  case segments => rw [hobjects.ssegVec, hprogress.objects.ssegVec, hadded.ssegVec]

/-- Where no master table is out, it leaves every other process alone. -/
theorem cloneProcess_cloned (hcons : s.Consistent) (hall : s.AllMasters)
    (hpid : s.pcbVec.atIndex pid = .ok (some source)) (hmaster : s.HasMaster source)
    (hintact : s.Intact source) (hclone : s.cloneProcess pid = .ok (h, s'))
    (hall' : s'.AllMasters) : s'.Consistent ∧ s.ClonedFrom s' source h := by
  obtain ⟨g, hinv, hsound⟩ := hcons
  obtain ⟨m, hm⟩ := hinv.hasMaster_iff.mp hmaster
  obtain ⟨g', hinv', _, hcarried, _, hrest, hcopied⟩ :=
    hinv.cloneProcess_copied hsound hpid hm hintact hclone
  have hsound' := hcarried.sound hsound
  refine ⟨⟨g', hinv', hsound'⟩, hcopied, fun v hv => ?_⟩
  have hlive : (s'.pcbs v.proc).isSome = (s.pcbs v.proc).isSome := by
    simpa using congrArg Option.isSome (hrest v.proc hv)
  refine ⟨hcarried.holds_eq hinv hsound hall hinv' hall' hv (fun hsome => hlive.trans hsome)
    fun hsome => .inl (hlive.symm.trans hsome), fun d hd hinseg => ?_⟩
  obtain ⟨⟨p, hp, _⟩, rfl⟩ := hall.desc hinv hsound hd
  obtain ⟨m', hm'⟩ := hinv'.hasMaster_iff.mp
    (hinv'.hasMaster_of_live hall' (hlive.trans (by rw [hp]; rfl)))
  have hsame := hcarried.pages v hv
  exact ⟨_, hinv'.descriptor_inseg hsound' hm' (hsame.sameRights.inseg.trans hinseg),
    hsame.sameRights, KernelInv.desc_of_shared hsame⟩

/-- `clone_process` copies the address space of its source, wherever its pages and its page
tables are, and whatever is evicted for it: every page has the rights and the contents of the
original, in a frame or a cluster of its own, and nothing else changes. -/
theorem clone_copies (hcons : s.Consistent) (hall : s.AllMasters)
    (hpid : s.pcbVec.atIndex pid = .ok (some source)) (hmaster : s.HasMaster source)
    (hintact : s.Intact source) (hclone : s.cloneProcess pid = .ok (h, s'))
    (hall' : s'.AllMasters) : s'.Consistent ∧ s.ClonedFrom s' source h ∧ s'.PagesApart := by
  obtain ⟨⟨g', hinv', hsound'⟩, hcloned⟩ :=
    cloneProcess_cloned hcons hall hpid hmaster hintact hclone hall'
  exact ⟨⟨g', hinv', hsound'⟩, hcloned, hinv'.pagesApart hsound' hall'⟩

end Clone

namespace KernelSystem

/-- The segments of a process, with their indices. -/
def indexed (s : KernelSystem) (h : Nat) : List (Fin 192 × SegTableEntry) :=
  (List.finRange 192).filterMap fun n =>
    ((s.segmentEntry h n).filter (·.getKind ≠ .free)).map (n, ·)

/-- A test of `Intact`. -/
def intact (s : KernelSystem) (h : Nat) : Bool :=
  (s.indexed h).all fun r =>
    ((List.range r.2.getLength).all fun i => (s.descriptor (entryPage r.2 h i)).any fun d =>
      d.getInseg && decide (d.getShared = true ↔ r.2.getKind = .occShared)) &&
    (s.indexed h).all fun r' => decide (r.1 = r'.1) ||
      (List.range r.2.getLength).all fun i => (List.range r'.2.getLength).all fun j =>
        decide (entryPage r.2 h i ≠ entryPage r'.2 h j)

theorem intact_of_check {s : KernelSystem} {h : Nat} (htest : s.intact h = true) : s.Intact h := by
  have hmem : ∀ {n e}, s.segmentEntry h n = some e → e.getKind ≠ .free → (n, e) ∈ s.indexed h := by
    intro n e he hkind
    exact List.mem_filterMap.mpr ⟨n, List.mem_finRange n, by simp [he, hkind]⟩
  simp only [intact, List.all_eq_true, Bool.and_eq_true, List.mem_range, Option.any_eq_true,
    Bool.or_eq_true, decide_eq_true_eq] at htest
  constructor
  · intro n e he hkind i hi
    obtain ⟨d, hd, hinseg, hshared⟩ := (htest _ (hmem he hkind)).1 i hi
    exact ⟨d, hd, hinseg, hshared⟩
  · intro n n' e e' he he' hkind hkind' i j hi hj heq
    obtain hsame | hapart := (htest _ (hmem he hkind)).2 _ (hmem he' hkind')
    · exact hsame
    · exact absurd heq (hapart i hi j hj)

end KernelSystem

/-- A process with a page that it stored a byte in. -/
def storedPage : Option KernelSystem :=
  MemoryOp.booted 2 4 8 [0, 0] [.call .createProcess, .call (.createSegment 0 0 1 .readWrite),
    .paging (.pageFault 0 0), .paging (.store 0 0 5#8)]

/-- The process is cloned. -/
theorem clone_copies_stored : ∃ s s' : KernelSystem,
    s.memory (pageOf 0 0, 0) = some 5#8 ∧ s.ClonedFrom s' 0 1 := by
  have hruns : storedPage.any (fun s =>
      decide ((s.pcbVec.atIndex 0).toOption = some (some 0)) && decide (s.HasMaster 0) &&
      s.intact 0 && decide (s.memory (pageOf 0 0, 0) = some 5#8) &&
      Outcome.holds (s.cloneProcess 0) fun r =>
        decide (r.1 = 1) && decide r.2.AllMasters) = true := by
    decide +kernel
  obtain ⟨s, hstored, hcheck⟩ := (Option.any_eq_true _ _).mp hruns
  simp only [Bool.and_eq_true, decide_eq_true_eq] at hcheck
  obtain ⟨⟨⟨⟨hpid, hmaster⟩, hintact⟩, hfive⟩, hclone⟩ := hcheck
  obtain ⟨⟨h, s'⟩, hclone, hok⟩ := Outcome.of_holds hclone
  simp only [Bool.and_eq_true, decide_eq_true_eq] at hok
  obtain ⟨rfl, hall'⟩ := hok
  obtain ⟨hcons, hall⟩ := MemoryOp.booted_consistent hstored
  exact ⟨s, s', hfive, (clone_copies hcons hall (Outcome.toOption_ok hpid) hmaster
    (intact_of_check hintact) hclone hall').2.1⟩

namespace MemoryOp

variable {levels pid source h : Nat} {s s' s'' t : KernelSystem} {ops : List MemoryOp}

/-- What the source and its clone load, each from its own copy of a page, is what was stored in
that copy last, and what the source had when it was cloned if nothing was: stores in the other
copy are never seen. -/
theorem clone_is_snapshot {pid' addr i : Nat} {h' : Nat} {e : SegTableEntry} {type : AccessType}
    {b value : BitVec 8} (hcons : s.Consistent) (hall : s.AllMasters)
    (hpid : s.pcbVec.atIndex pid = .ok (some source)) (hmaster : s.HasMaster source)
    (hintact : s.Intact source) (hclone : s.cloneProcess pid = .ok (h, s'))
    (hall' : s'.AllMasters) (he : e ∈ s.occupied source) (hi : i < e.getLength)
    (hh' : h' = source ∨ h' = h) (haddr : pageOf h' addr = entryPage e h' i)
    (hb : s.memory (entryPage e source i, offsetOf addr) = some b)
    (hrun : Run (fun s op s' => op.Step levels s s' ∧
      ∃ b, s'.memory (entryPage e h' i, offsetOf addr) = some b) s' ops s'')
    (hpcb : s''.accessPcb pid' = .ok h') (hmasters : MastersIn levels s'' h' addr)
    (hload : s''.loadThrough levels pid' addr type = .ok (some value, t)) :
    value = lastStored (entryPage e h' i, offsetOf addr) b (events levels s' ops) := by
  obtain ⟨hcons', hcloned⟩ := cloneProcess_cloned hcons hall hpid hmaster hintact hclone hall'
  have hheld : s'.holds (entryPage e h' i) = s.holds (entryPage e source i) := by
    obtain rfl | rfl := hh'
    · have hne : h' ≠ h := by
        rintro rfl
        obtain ⟨p, hp, _⟩ := hmaster
        cases hp.symm.trans hcloned.fresh
      exact (hcloned.others (entryPage e h' i) hne).1
    · exact (hcloned.pages e he i hi).contents
  have hthere : s'.memory (entryPage e h' i, offsetOf addr) = some b := by
    rw [memory, hheld]
    exact hb
  rw [← haddr] at hthere hrun ⊢
  exact loads_own_page hcons' hall' hrun hthere hpcb hmasters hload

/-- The source stores 7 where its clone has a copy of 5. -/
theorem clone_is_snapshot_five : ∃ (s' s'' t : KernelSystem) (value : BitVec 8),
    s''.loadThrough 1 1 0 .read = .ok (some value, t) ∧
      value = lastStored (pageOf 1 0, 0) 5#8 (events 1 s' [.paging (.store 0 0 7#8)]) := by
  have hruns : storedPage.any (fun s =>
      decide ((s.pcbVec.atIndex 0).toOption = some (some 0)) && decide (s.HasMaster 0) &&
      s.intact 0 && (decide (s.memory (pageOf 0 0, 0) = some 5#8) &&
      (s.occupied 0).any fun e => decide (0 < e.getLength ∧ e.start = 0)) &&
      Outcome.holds (s.cloneProcess 0) fun r => decide (r.1 = 1) && decide r.2.AllMasters &&
        (follow 1 (fun s => (s.memory (pageOf 1 0, 0)).isSome) r.2
          [.paging (.store 0 0 7#8)]).any fun s'' =>
          decide ((s''.accessPcb 1).toOption = some 1) && s''.mastersIn 1 1 0 &&
          Outcome.holds (s''.loadThrough 1 1 0 .read) fun r => r.1.isSome) = true := by
    decide +kernel
  obtain ⟨s, hstored, hcheck⟩ := (Option.any_eq_true _ _).mp hruns
  simp only [Bool.and_eq_true, decide_eq_true_eq, List.any_eq_true] at hcheck
  obtain ⟨⟨⟨⟨hpid, hmaster⟩, hintact⟩, hfive, e, he, hlen, hstart⟩, hclone⟩ := hcheck
  obtain ⟨⟨h, s'⟩, hclone, hok⟩ := Outcome.of_holds hclone
  simp only [Bool.and_eq_true, decide_eq_true_eq, Option.any_eq_true] at hok
  obtain ⟨⟨rfl, hall'⟩, s'', hfollow, ⟨hpcb, hmasters⟩, hload⟩ := hok
  obtain ⟨⟨answer, t⟩, hload, hsome⟩ := Outcome.of_holds hload
  obtain ⟨value, rfl⟩ := Option.isSome_iff_exists.mp hsome
  obtain ⟨hcons, hall⟩ := booted_consistent hstored
  have hpage : ∀ h', entryPage e h' 0 = pageOf h' 0 := fun h' => by rw [entryPage, hstart]; rfl
  have hrun : Run (fun s (op : MemoryOp) s' => op.Step 1 s s' ∧
      ∃ b, s'.memory (entryPage e 1 0, offsetOf 0) = some b) s' [.paging (.store 0 0 7#8)] s'' := by
    rw [hpage]
    exact (run_of_follow hfollow).weaken fun _ _ _ hstep =>
      ⟨hstep.1, Option.isSome_iff_exists.mp hstep.2⟩
  have hhad : s.memory (entryPage e 0 0, offsetOf 0) = some 5#8 := by
    rw [hpage]
    exact hfive
  have hsnapshot := clone_is_snapshot hcons hall (Outcome.toOption_ok hpid) hmaster
    (intact_of_check hintact) hclone hall' he hlen (.inr rfl) (hpage 1).symm hhad hrun
    (Outcome.toOption_ok hpcb) (mastersIn_of_check hmasters) hload
  rw [hpage] at hsnapshot
  exact ⟨s', s'', t, value, hload, hsnapshot⟩

end MemoryOp

end VirtualMemory

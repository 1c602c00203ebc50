import VirtualMemory.SharedMemory

/-!
# Protection

Two accesses that are granted reach the same byte of memory only at the same page of one process
or through one shared segment. What a process may not write to it does not change, however the
pages are moved.
-/

namespace VirtualMemory

open Function UserSpace KernelSystem PageTableL2Entry FlatMemory

namespace KernelSystem

/-- An address that is the dummy's own or in a mapping of its segment. -/
def Through (s : KernelSystem) (h addr dummy : Nat) : Prop :=
  h = dummy ∨ ∃ e, s.descriptor (pageOf h addr) = some e ∧ e.getShared = true ∧
    s.ssegVec.atIndex e.ssegInd.toNat = .ok dummy

theorem isSegment_of_live {s : KernelSystem} {n dummy : Nat} (hdir : s.registry.Directory)
    (hat : s.ssegVec.atIndex n = .ok dummy) : ∃ name, s.IsSegment name n dummy := by
  obtain ⟨entry, hentry, hblock⟩ := hdir.live n dummy ((atIndex_iff hdir).mp hat)
  exact ⟨entry.1, (isSegment_iff hdir).mpr ⟨entry, hentry, rfl, hblock⟩⟩

end KernelSystem

namespace KernelInv

variable {g : Layout} {s s' : KernelSystem} {depth h pid addr m : Nat} {type : AccessType}

/-- Where an access leads: to a page of the process, or through a mapping to one of the dummy. -/
theorem leads_through {v : LPage} (hready : s.Ready) (hinv : KernelInv g noHand noHand s)
    (hsound : g.Sound) (hleads : Leads g s depth h addr v) :
    v = pageOf h addr ∨ ∃ name n, s.IsSegment name n v.proc ∧ s.Through h addr v.proc := by
  cases hleads with
  | page => exact .inl rfl
  | shared hm hf hshared hsegment hrest =>
      obtain ⟨m, hm⟩ := hm
      obtain ⟨name, hname⟩ := isSegment_of_live hready.directory hsegment
      have hpage := resolve_dummy (hready.houses hname) (hrest.resolve_eq hinv hsound)
      have hproc := congrArg LPage.proc hpage
      rw [show v.proc = _ from hproc]
      exact .inr ⟨name, _, hname, .inr ⟨_, descriptor_shared hinv hsound hm hshared, hshared,
        hsegment⟩⟩

/-- Access is granted to those who have the right. -/
theorem access_allowed (hinv : KernelInv g noHand noHand s) (hsound : g.Sound)
    (hm : g.place (.master h) = .frame m) (hpcb : s.accessPcb pid = .ok h)
    (haccess : access depth s pid addr type false = .ok (.ok, s')) :
    accessIsOk type.code (g.desc (pageOf h addr)).getAccess = true := by
  obtain ⟨d, rfl, hwork, ⟨_, hnot, _⟩ | ⟨f, s₁, hf, hentry, _⟩⟩ :=
    hinv.access_ok hsound hm hpcb haccess
  · exact absurd rfl hnot
  · by_contra hrefused
    rw [Bool.not_eq_true] at hrefused
    simp [accessEntry, hwork.inv.mem_pageOf hf, hrefused] at hentry

/-- A page of a process that is no dummy is reached by that process alone. -/
theorem granted_own {levels : Nat} {v : LPage} {off : Fin 1024}
    (hready : s.Ready) (hmasters : ∀ h, s.accessPcb pid = .ok h → MastersIn levels s h addr)
    (hunnamed : ∀ name n, ¬ s.IsSegment name n v.proc)
    (hgranted : s.granted levels pid addr type = some (v, off)) :
    s.accessPcb pid = .ok v.proc ∧ v = pageOf v.proc addr := by
  obtain ⟨h, s₁, hpcb, haccess, hresolve, _⟩ := granted_some hgranted
  obtain ⟨g, hinv, hsound⟩ := hready.consistent
  obtain ⟨_, _, _, hok⟩ := hinv.access_passed hsound (hmasters h hpcb) hpcb haccess
  obtain ⟨u, hleads, _⟩ := hok rfl
  cases (hleads.resolve_eq hinv hsound).symm.trans hresolve
  obtain hpage | ⟨name, n, hsegment, _⟩ := leads_through hready hinv hsound hleads
  · have hproc : v.proc = h := congrArg LPage.proc hpage
    rw [hproc]
    exact ⟨hpcb, hpage⟩
  · exact absurd hsegment (hunnamed name n)

end KernelInv

theorem KernelSystem.Ready.not_madeSince {s : KernelSystem} {h : Nat} (hready : s.Ready)
    (hmaster : s.HasMaster h) : ¬ MadeSince s h := by
  obtain ⟨g, hinv, _⟩ := hready.consistent
  obtain ⟨m, hm⟩ := hinv.hasMaster_iff.mp hmaster
  exact hinv.not_madeSince hm

/-- A process that there is does not become a dummy. -/
theorem KernelSystem.Ready.unnamed_step {s s' : KernelSystem} {levels h : Nat} {op : MemoryOp}
    (hready : s.Ready) (hstep : op.Step levels s s') (hmaster : s.HasMaster h)
    (hunnamed : ∀ name n, ¬ s.IsSegment name n h) (name : String) (n : Nat) :
    ¬ s'.IsSegment name n h := by
  intro hsegment
  obtain hold | ⟨hmade, _⟩ := (isSegment_iff_named.mp hsegment).before hready.directory
    (hstep.registry hready.consistent)
  · exact hunnamed name n (isSegment_iff_named.mpr hold)
  · exact absurd hmade (hready.not_madeSince hmaster)

namespace MemoryOp

variable {levels : Nat} {start s s' : KernelSystem} {ops : List MemoryOp}

/-- In every state that clients bring about, two accesses that are granted reach the same place
in memory only at the same page of one process, or through one shared segment. -/
theorem accesses_apart {h₁ h₂ pid₁ pid₂ addr₁ addr₂ : Nat} {type₁ type₂ : AccessType}
    {t₁ t₂ : KernelSystem} {pa : Nat × Nat} (hstart : start.Ready)
    (hrun : Run (ClientStep levels) start ops s)
    (hpcb₁ : s.accessPcb pid₁ = .ok h₁) (hpcb₂ : s.accessPcb pid₂ = .ok h₂)
    (hmasters₁ : MastersIn levels s h₁ addr₁) (hmasters₂ : MastersIn levels s h₂ addr₂)
    (haccess₁ : s.access levels pid₁ addr₁ type₁ false = .ok (.ok, t₁))
    (haccess₂ : s.access levels pid₂ addr₂ type₂ false = .ok (.ok, t₂))
    (hpa₁ : s.getPa levels h₁ addr₁ = .ok (some pa))
    (hpa₂ : s.getPa levels h₂ addr₂ = .ok (some pa)) :
    addr₁ % pageSize = addr₂ % pageSize ∧ (pageOf h₁ addr₁ = pageOf h₂ addr₂ ∨
      ∃ name n dummy, s.IsSegment name n dummy ∧ s.Through h₁ addr₁ dummy ∧
        s.Through h₂ addr₂ dummy) := by
  have hready : s.Ready := hrun.invariant Ready
    (fun _ _ _ hready hstep => ready_step hready hstep.1 hstep.2) hstart
  obtain ⟨g, hinv, hsound⟩ := hready.consistent
  obtain ⟨_, _, _, hok₁⟩ := hinv.access_passed hsound hmasters₁ hpcb₁ haccess₁
  obtain ⟨_, _, _, hok₂⟩ := hinv.access_passed hsound hmasters₂ hpcb₂ haccess₂
  obtain ⟨v₁, hleads₁, _⟩ := hok₁ rfl
  obtain ⟨v₂, hleads₂, _⟩ := hok₂ rfl
  rw [hleads₁.getPa_eq hinv] at hpa₁
  rw [hleads₂.getPa_eq hinv] at hpa₂
  cases hpa₁
  simp only [Except.ok.injEq, Option.some.injEq, Prod.mk.injEq] at hpa₂
  obtain ⟨hblock, hoffset⟩ := hpa₂
  obtain rfl : v₁ = v₂ := by
    by_contra hne
    exact hinv.user.frames.ordinal_ne hleads₁.resident hleads₂.resident (Ne.symm hne) hblock
  refine ⟨hoffset.symm, ?_⟩
  obtain hpage₁ | ⟨name, n, hsegment, hthrough₁⟩ :=
    KernelInv.leads_through hready hinv hsound hleads₁
  · obtain hpage₂ | ⟨name, n, hsegment, hthrough₂⟩ :=
      KernelInv.leads_through hready hinv hsound hleads₂
    · exact .inl (hpage₁.symm.trans hpage₂)
    · exact .inr ⟨name, n, _, hsegment, .inl (congrArg LPage.proc hpage₁).symm, hthrough₂⟩
  · refine .inr ⟨name, n, _, hsegment, hthrough₁, ?_⟩
    obtain hpage₂ | ⟨_, _, _, hthrough₂⟩ := KernelInv.leads_through hready hinv hsound hleads₂
    · exact .inl (congrArg LPage.proc hpage₂).symm
    · exact hthrough₂

/-- Two processes reach a byte through the segment that they map. -/
theorem accesses_apart_shared : ∃ s : KernelSystem,
    0 % pageSize = 1024 % pageSize ∧ (pageOf 0 0 = pageOf 1 1024 ∨
      ∃ name n dummy, s.IsSegment name n dummy ∧ s.Through 0 0 dummy ∧
        s.Through 1 1024 dummy) := by
  have hruns : (smallKernel 1 6 8 []).toOption.any (fun start =>
      decide (start.userspcSize ≤ 65536) && decide (start.krnlspcSize ≤ 65536) &&
      (clients 2 [.call .createProcess, .call .createProcess,
        .call (.createSharedSegment 0 0 1 "s" .readWrite),
        .call (.createSharedSegment 1 1024 1 "s" .read), .paging (.pageFault 0 0)] start).any
        fun s => decide ((s.accessPcb 0).toOption = some 0) &&
          decide ((s.accessPcb 1).toOption = some 1) &&
          s.mastersIn 2 0 0 && s.mastersIn 2 1 1024 &&
          Outcome.holds (s.access 2 0 0 .write false) (fun r => decide (r.1 = .ok)) &&
          Outcome.holds (s.access 2 1 1024 .read false) (fun r => decide (r.1 = .ok)) &&
          (decide ((s.getPa 2 0 0).toOption = some (some (0, 0))) &&
            decide ((s.getPa 2 1 1024).toOption = some (some (0, 0))))) = true := by
    decide +kernel
  obtain ⟨start, hboot, hcheck⟩ := (Option.any_eq_true _ _).mp hruns
  simp only [Bool.and_eq_true, decide_eq_true_eq, Option.any_eq_true] at hcheck
  obtain ⟨⟨huser, hkrnl⟩, s, hclients, ⟨⟨⟨⟨⟨hpcb₁, hpcb₂⟩, hmasters₁⟩, hmasters₂⟩, haccess₁⟩,
    haccess₂⟩, hpa₁, hpa₂⟩ := hcheck
  obtain ⟨⟨_, t₁⟩, haccess₁, hok₁⟩ := Outcome.of_holds haccess₁
  obtain ⟨⟨_, t₂⟩, haccess₂, hok₂⟩ := Outcome.of_holds haccess₂
  obtain rfl := of_decide_eq_true hok₁
  obtain rfl := of_decide_eq_true hok₂
  have hstart := ready_of_booted (smallKernel_booted (Outcome.toOption_ok hboot)) huser hkrnl
  exact ⟨s, accesses_apart hstart (run_of_clients hclients) (Outcome.toOption_ok hpcb₁)
    (Outcome.toOption_ok hpcb₂) (mastersIn_of_check hmasters₁) (mastersIn_of_check hmasters₂)
    haccess₁ haccess₂ (Outcome.toOption_ok hpa₁) (Outcome.toOption_ok hpa₂)⟩

end MemoryOp

namespace KernelSystem

/-- A page of a segment that its process may not write to, and that is no page of a shared
segment. -/
structure ReadOnly (s : KernelSystem) (v : LPage) : Prop where
  page : ∃ e, s.descriptor v = some e ∧ e.getInseg = true ∧
    accessIsOk AccessType.write.code e.getAccess = false
  unnamed : ∀ name n, ¬ s.IsSegment name n v.proc

end KernelSystem

namespace KernelSystem.ReadOnly

variable {levels : Nat} {s s' : KernelSystem} {v : LPage} {op : MemoryOp} {off : Fin 1024}

theorem step (honly : s.ReadOnly v) (hready : s.Ready) (hstep : KeepingStep levels s op s') :
    s'.ReadOnly v := by
  obtain ⟨⟨hstep, hspares⟩, hkeeps⟩ := hstep
  obtain ⟨e, he, hinseg, hrefused⟩ := honly.page
  obtain ⟨g, hinv, hsound⟩ := hready.consistent
  obtain ⟨hmaster, rfl⟩ := hready.masters.desc hinv hsound he
  constructor
  · obtain ⟨g', hinv', hsound', hpages⟩ := hstep.extended hinv hsound hkeeps
    obtain ⟨m', hm'⟩ :=
      hinv'.hasMaster_iff.mp (MemoryOp.hasMaster_step hready hstep hkeeps hmaster)
    obtain ⟨hrights, _⟩ | ⟨hnew, _⟩ := hpages v
    · have hinseg' := hrights.inseg.trans hinseg
      exact ⟨_, hinv'.descriptor_inseg hsound' hm' hinseg', hinseg', by rwa [hrights.access]⟩
    · cases hinseg.symm.trans hnew
  · exact hready.unnamed_step hstep hmaster honly.unnamed

/-- No store reaches the page. -/
theorem spared (honly : s.ReadOnly v) (hready : s.Ready) (hstep : op.Step levels s s')
    (value : BitVec 8) : op.event levels s ≠ .store (v, off) value := by
  intro hevent
  cases op with
  | call op =>
      dsimp only [MemoryOp.event] at hevent
      split at hevent <;> cases hevent
  | load =>
      dsimp only [MemoryOp.event] at hevent
      split at hevent <;> cases hevent
  | paging op =>
      cases op with
      | pageFault | access | evictPage | evictTable | reload => cases hevent
      | store pid addr value' =>
          dsimp only [MemoryOp.event] at hevent
          split at hevent
          · rename_i c hgranted
            cases hevent
            obtain ⟨hpcb, hpage⟩ :=
              KernelInv.granted_own hready hstep.proceeds honly.unnamed hgranted
            obtain ⟨_, s₁, hpcb', haccess, _⟩ := KernelInv.granted_some hgranted
            cases hpcb.symm.trans hpcb'
            obtain ⟨e, he, _, hrefused⟩ := honly.page
            obtain ⟨g, hinv, hsound⟩ := hready.consistent
            obtain ⟨hmaster, rfl⟩ := hready.masters.desc hinv hsound he
            obtain ⟨m, hm⟩ := hinv.hasMaster_iff.mp hmaster
            have hallowed := hinv.access_allowed hsound hm hpcb haccess
            rw [← hpage] at hallowed
            cases hallowed.symm.trans hrefused
          · cases hevent

end KernelSystem.ReadOnly

/-- What may not be written to does not change: in a run that removes nothing, every byte of a
page without the right to write, once it is there, stays what it is, whatever the processes try
and wherever the page is moved. -/
theorem read_only_kept {levels : Nat} {s s' : KernelSystem} {ops : List MemoryOp} {v : LPage}
    {off : Fin 1024} {b : BitVec 8} (hready : s.Ready) (honly : s.ReadOnly v)
    (hb : s.memory (v, off) = some b) (hrun : Run (KeepingStep levels) s ops s') :
    s'.memory (v, off) = some b := by
  refine (hrun.invariant
    (fun s => s.Ready ∧ s.ReadOnly v ∧ s.memory (v, off) = some b) ?_ ⟨hready, honly, hb⟩).2.2
  rintro s₁ op s₂ ⟨hready₁, honly₁, hb₁⟩ hstep
  have hsteps := hstep.1.1
  have hevent := (hsteps.memory hready₁.consistent hready₁.masters).2
  have hkept := hevent.keeps hb₁ (MemoryOp.event_ne_remove hstep.2)
  refine ⟨MemoryOp.ready_step hready₁ hsteps hstep.1.2, honly₁.step hready₁ hstep, ?_⟩
  rw [hkept, Event.after_of_spared (honly₁.spared hready₁ hsteps)]

/-- A process loads a byte that it tries to store to. -/
def readAndTried : List MemoryOp :=
  [.paging (.store 0 0 5#8), .paging (.evictPage 0), .paging (.pageFault 0 0)]

/-- The store is refused, and the page comes back as it was. -/
theorem read_only_kept_zero : ∃ s s' : KernelSystem, s'.memory (pageOf 0 0, 0) = some 0#8 ∧
    Run (KeepingStep 2) s readAndTried s' := by
  have hruns : (smallKernel 1 4 8 []).toOption.any (fun start =>
      decide (start.userspcSize ≤ 65536) && decide (start.krnlspcSize ≤ 65536) &&
      (MemoryOp.clients 2 [.call .createProcess, .call (.createSegment 0 0 1 .read),
        .paging (.pageFault 0 0)] start).any
        fun s => (decide (s.ssegMap = []) && (s.descriptor (pageOf 0 0)).any fun e =>
            e.getInseg && !accessIsOk AccessType.write.code e.getAccess) &&
          decide (s.memory (pageOf 0 0, 0) = some 0#8) &&
          (MemoryOp.clients 2 readAndTried s).isSome) = true := by
    decide +kernel
  obtain ⟨start, hboot, hcheck⟩ := (Option.any_eq_true _ _).mp hruns
  simp only [Bool.and_eq_true, decide_eq_true_eq, Option.any_eq_true, Bool.not_eq_true'] at hcheck
  obtain ⟨⟨huser, hkrnl⟩, s, hclients, ⟨⟨hnone, e, he, hinseg, hrefused⟩, hb⟩, hrest⟩ := hcheck
  obtain ⟨s', hclients'⟩ := Option.isSome_iff_exists.mp hrest
  have hstart := ready_of_booted (smallKernel_booted (Outcome.toOption_ok hboot)) huser hkrnl
  have hready : s.Ready := (MemoryOp.run_of_clients hclients).invariant Ready
    (fun _ _ _ hready hstep => MemoryOp.ready_step hready hstep.1 hstep.2) hstart
  have honly : s.ReadOnly (pageOf 0 0) := by
    refine ⟨⟨e, he, hinseg, hrefused⟩, ?_⟩
    rintro name n ⟨b, sscb, hname, _⟩
    rw [hnone] at hname
    cases hname
  have hrun := MemoryOp.keeping_of_clients (by decide : ∀ op ∈ readAndTried, _) hclients'
  exact ⟨s, s', read_only_kept hready honly hb hrun, hrun⟩

namespace MemoryOp

/-- What a step stores in a byte for process `h`. -/
def storedBy (levels h : Nat) (c : LByte) (s : KernelSystem) : MemoryOp → Option (BitVec 8)
  | .paging (.store pid addr value) =>
      if s.granted levels pid addr .write = some c ∧ (s.accessPcb pid).toOption = some h then
        some value
      else none
  | _ => none

/-- What process `h` stores in a byte over a run, the last value last. -/
def storesBy (levels h : Nat) (c : LByte) (s : KernelSystem) (ops : List MemoryOp) :
    List (BitVec 8) :=
  (Run.observe (fun s (op : MemoryOp) => (op.exec levels s).toOption) (storedBy levels h c)
    s ops).reduceOption

/-- A step of clients after which a byte is there. -/
def PresentStep (levels : Nat) (c : LByte) (s : KernelSystem) (op : MemoryOp)
    (s' : KernelSystem) : Prop :=
  ClientStep levels s op s' ∧ ∃ b, s'.memory c = some b

variable {levels : Nat} {s s' : KernelSystem} {op : MemoryOp} {ops : List MemoryOp} {c : LByte}
  {b : BitVec 8}

/-- A byte of a process that is no dummy changes by the stores of the process only. -/
theorem after_event (hready : s.Ready) (hstep : op.Step levels s s')
    (hunnamed : ∀ name n, ¬ s.IsSegment name n c.1.proc) (b : BitVec 8) :
    (op.event levels s).after c b = (op.storedBy levels c.1.proc c s).getD b := by
  cases op with
  | call op =>
      dsimp only [event]
      split <;> rfl
  | load =>
      dsimp only [event]
      split <;> rfl
  | paging op =>
      cases op with
      | pageFault | access | evictPage | evictTable | reload => rfl
      | store pid addr value =>
          simp only [event, storedBy]
          by_cases hgranted : s.granted levels pid addr .write = some c
          · obtain ⟨hpcb, _⟩ := KernelInv.granted_own hready hstep.proceeds hunnamed hgranted
            rw [hgranted, if_pos ⟨rfl, by rw [hpcb]; rfl⟩]
            exact if_pos rfl
          · rw [if_neg fun hboth => hgranted hboth.1]
            refine Event.after_of_spared fun b' hevent => hgranted ?_
            split at hevent
            · rename_i c' hc'
              cases hevent
              exact hc'
            · cases hevent

/-- Over a run, such a byte has the value that its process stored last. -/
theorem lastStored_eq (hready : s.Ready) (hunnamed : ∀ name n, ¬ s.IsSegment name n c.1.proc)
    (hthere : s.memory c = some b) (hrun : Run (PresentStep levels c) s ops s') :
    lastStored c b (events levels s ops) = (storesBy levels c.1.proc c s ops).getLastD b := by
  induction hrun generalizing b with
  | nil => rfl
  | @cons s t _ op ops hfirst _ ih =>
      obtain ⟨⟨hstep, hspares⟩, b', hb'⟩ := hfirst
      have hexec : (op.exec levels s).toOption = some t := by
        rw [hstep.exec]
        rfl
      have hafter := after_event hready hstep hunnamed b
      have hmaster : s.HasMaster c.1.proc := by
        obtain ⟨g, hinv, hsound⟩ := hready.consistent
        exact (hinv.memory_eq hsound hready.masters hthere).1
      have hrest := ih (ready_step hready hstep hspares)
        (hready.unnamed_step hstep hmaster hunnamed) hb'
      have hpresent := (hstep.memory hready.consistent hready.masters).2.present hthere hb'
      obtain rfl := Option.some.inj (hpresent.symm.trans hb')
      rw [events, Run.observe_cons hexec, lastStored_cons, ← events, hrest, storesBy, storesBy,
        Run.observe_cons hexec, hafter]
      cases op.storedBy levels c.1.proc c s with
      | none => rw [List.reduceOption_cons_of_none, Option.getD_none]
      | some value => rw [List.reduceOption_cons_of_some, Option.getD_some, List.getLastD_cons]

/-- What a process loads from a page of its own is what it stored there itself. -/
theorem loads_own_stores {u : KernelSystem} {h addr pid : Nat} {type : AccessType}
    {value : BitVec 8} (hready : s.Ready) (hunnamed : ∀ name n, ¬ s.IsSegment name n h)
    (hthere : s.memory (pageOf h addr, offsetOf addr) = some b)
    (hrun : Run (PresentStep levels (pageOf h addr, offsetOf addr)) s ops s')
    (hpcb : s'.accessPcb pid = .ok h) (hmasters : MastersIn levels s' h addr)
    (hload : s'.loadThrough levels pid addr type = .ok (some value, u)) :
    value = (storesBy levels h (pageOf h addr, offsetOf addr) s ops).getLastD b := by
  have hsteps : Run (fun s (op : MemoryOp) s' => op.Step levels s s' ∧
      ∃ b, s'.memory (pageOf h addr, offsetOf addr) = some b) s ops s' :=
    hrun.weaken fun _ _ _ hstep => ⟨hstep.1.1, hstep.2⟩
  have hlast := loads_own_page hready.consistent hready.masters hsteps hthere hpcb hmasters hload
  rw [hlast]
  exact lastStored_eq (c := (pageOf h addr, offsetOf addr)) hready hunnamed hthere hrun

/-- No process reads the data of another one: what it loads from a page of its own is the same
in any two runs in which it stores the same there, whatever the other processes do, whichever
pages are evicted and wherever they come back. Bytes that it stored nothing in must have been the
same at the start. -/
theorem reads_alike {s₁ s₂ t₁ t₂ u₁ u₂ : KernelSystem} {ops₁ ops₂ : List MemoryOp}
    {h addr pid₁ pid₂ : Nat} {type₁ type₂ : AccessType} {b₁ b₂ value₁ value₂ : BitVec 8}
    (hready₁ : s₁.Ready) (hready₂ : s₂.Ready) (hunnamed₁ : ∀ name n, ¬ s₁.IsSegment name n h)
    (hunnamed₂ : ∀ name n, ¬ s₂.IsSegment name n h)
    (hthere₁ : s₁.memory (pageOf h addr, offsetOf addr) = some b₁)
    (hthere₂ : s₂.memory (pageOf h addr, offsetOf addr) = some b₂)
    (hrun₁ : Run (PresentStep levels (pageOf h addr, offsetOf addr)) s₁ ops₁ t₁)
    (hrun₂ : Run (PresentStep levels (pageOf h addr, offsetOf addr)) s₂ ops₂ t₂)
    (hstores : storesBy levels h (pageOf h addr, offsetOf addr) s₁ ops₁ =
      storesBy levels h (pageOf h addr, offsetOf addr) s₂ ops₂)
    (hinitial : storesBy levels h (pageOf h addr, offsetOf addr) s₁ ops₁ = [] → b₁ = b₂)
    (hpcb₁ : t₁.accessPcb pid₁ = .ok h) (hpcb₂ : t₂.accessPcb pid₂ = .ok h)
    (hmasters₁ : MastersIn levels t₁ h addr) (hmasters₂ : MastersIn levels t₂ h addr)
    (hload₁ : t₁.loadThrough levels pid₁ addr type₁ = .ok (some value₁, u₁))
    (hload₂ : t₂.loadThrough levels pid₂ addr type₂ = .ok (some value₂, u₂)) :
    value₁ = value₂ := by
  rw [loads_own_stores hready₁ hunnamed₁ hthere₁ hrun₁ hpcb₁ hmasters₁ hload₁,
    loads_own_stores hready₂ hunnamed₂ hthere₂ hrun₂ hpcb₂ hmasters₂ hload₂, ← hstores]
  cases hvalues : storesBy levels h (pageOf h addr, offsetOf addr) s₁ ops₁ with
  | nil =>
      rw [hinitial hvalues]
  | cons value values => rw [List.getLastD_cons, List.getLastD_cons]

/-- Steps of clients in a small kernel while a byte is there. -/
def clientsKeeping (levels : Nat) (c : LByte) (ops : List MemoryOp) (s : KernelSystem) :
    Option KernelSystem :=
  Run.follow (fun s op => (clientStep levels s op).filter fun s' => (s'.memory c).isSome) s ops

theorem run_of_clientsKeeping (hclients : clientsKeeping levels c ops s = some s') :
    Run (PresentStep levels c) s ops s' := by
  refine Run.of_follow (fun s op s' hstep => ?_) hclients
  obtain ⟨hstep, hpresent⟩ := Option.filter_eq_some_iff.mp hstep
  exact ⟨clientStep_of_check hstep, Option.isSome_iff_exists.mp hpresent⟩

/-- Two processes with a page each, and a frame for one of them. -/
def twoOwners : List MemoryOp :=
  [.call .createProcess, .call .createProcess, .call (.createSegment 0 0 1 .readWrite),
    .call (.createSegment 1 0 1 .readWrite), .paging (.pageFault 0 0)]

/-- The first process stores a byte, and the second one does nothing or takes the frame and
stores another byte at the same address. -/
def aloneRun : List MemoryOp := [.paging (.store 0 0 5#8)]

def disturbedRun : List MemoryOp :=
  [.paging (.store 0 0 5#8), .paging (.pageFault 1 0), .paging (.store 1 0 7#8),
    .paging (.pageFault 0 0)]

/-- What the first process loads is the same. -/
theorem reads_alike_disturbed : ∃ (t₁ t₂ u₁ u₂ : KernelSystem) (value₁ value₂ : BitVec 8),
    t₁.loadThrough 1 0 0 .read = .ok (some value₁, u₁) ∧
      t₂.loadThrough 1 0 0 .read = .ok (some value₂, u₂) ∧ value₁ = value₂ := by
  have hruns : (smallKernel 1 6 8 [0, 0]).toOption.any (fun start =>
      decide (start.userspcSize ≤ 65536) && decide (start.krnlspcSize ≤ 65536) &&
      (clients 1 twoOwners start).any fun s => decide (s.ssegMap = []) &&
        (s.memory (pageOf 0 0, offsetOf 0)).isSome &&
        decide (storesBy 1 0 (pageOf 0 0, offsetOf 0) s aloneRun = [5#8]) &&
        decide (storesBy 1 0 (pageOf 0 0, offsetOf 0) s disturbedRun = [5#8]) &&
        ([aloneRun, disturbedRun].all fun ops =>
          (clientsKeeping 1 (pageOf 0 0, offsetOf 0) ops s).any fun t =>
            decide ((t.accessPcb 0).toOption = some 0) && t.mastersIn 1 0 0 &&
            Outcome.holds (t.loadThrough 1 0 0 .read) fun r => r.1.isSome)) = true := by
    decide +kernel
  obtain ⟨start, hboot, hcheck⟩ := (Option.any_eq_true _ _).mp hruns
  simp only [Bool.and_eq_true, decide_eq_true_eq, Option.any_eq_true, List.all_cons,
    List.all_nil, and_true] at hcheck
  obtain ⟨⟨huser, hkrnl⟩, s, hclients, ⟨⟨⟨hnone, hthere⟩, hstores₁⟩, hstores₂⟩,
    ⟨t₁, hrun₁, ⟨hpcb₁, hmasters₁⟩, hload₁⟩, t₂, hrun₂, ⟨hpcb₂, hmasters₂⟩, hload₂⟩ := hcheck
  obtain ⟨b, hthere⟩ := Option.isSome_iff_exists.mp hthere
  obtain ⟨⟨_, u₁⟩, hload₁, hsome₁⟩ := Outcome.of_holds hload₁
  obtain ⟨⟨_, u₂⟩, hload₂, hsome₂⟩ := Outcome.of_holds hload₂
  obtain ⟨value₁, rfl⟩ := Option.isSome_iff_exists.mp hsome₁
  obtain ⟨value₂, rfl⟩ := Option.isSome_iff_exists.mp hsome₂
  have hstart := ready_of_booted (smallKernel_booted (Outcome.toOption_ok hboot)) huser hkrnl
  have hready : s.Ready := (run_of_clients hclients).invariant Ready
    (fun _ _ _ hready hstep => ready_step hready hstep.1 hstep.2) hstart
  have hunnamed : ∀ name n, ¬ s.IsSegment name n 0 := by
    rintro name n ⟨b, sscb, hname, _⟩
    rw [hnone] at hname
    cases hname
  refine ⟨t₁, t₂, u₁, u₂, value₁, value₂, hload₁, hload₂, reads_alike hready hready hunnamed
    hunnamed hthere hthere (run_of_clientsKeeping hrun₁) (run_of_clientsKeeping hrun₂)
    (hstores₁.trans hstores₂.symm) (fun _ => rfl) (Outcome.toOption_ok hpcb₁)
    (Outcome.toOption_ok hpcb₂) (mastersIn_of_check hmasters₁) (mastersIn_of_check hmasters₂)
    hload₁ hload₂⟩

end MemoryOp

end VirtualMemory

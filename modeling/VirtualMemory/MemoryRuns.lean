import VirtualMemory.Library.FlatMemory
import VirtualMemory.PagingRuns
import VirtualMemory.PublicRuns
import VirtualMemory.RegistryRuns

/-!
# The memory that the processes see

The pages of all processes, byte by byte, are a flat memory: a byte has the value that was
stored in it last, whatever else the kernel was asked to do, and wherever it moved the page.
-/

namespace VirtualMemory

open Function UserSpace KernelSystem PageTableL2Entry FlatMemory

/-- A byte of a page of a process. -/
abbrev LByte := LPage × Fin 1024

namespace KernelSystem

/-- What the pages of the processes contain, in whichever frames and clusters they are. -/
def memory (s : KernelSystem) (c : LByte) : Option (BitVec 8) := (s.holds c.1).map (·.byte c.2)

/-- A process that is gone holds nothing. -/
theorem holds_of_gone {s : KernelSystem} {v : LPage} (hgone : s.pcbs v.proc = none) :
    s.holds v = none := by
  simp [holds, descriptor, slotEntry, masterPage, hgone]

/-- The byte that a process is granted access to. -/
def granted (depth : Nat) (s : KernelSystem) (pid addr : Nat) (type : AccessType) :
    Option LByte :=
  match s.accessPcb pid, s.access depth pid addr type false with
  | .ok h, .ok (.ok, _) => (s.resolve depth h addr).map fun v => (v, offsetOf addr)
  | _, _ => none

/-- A process loads a byte: it asks for access, and where that is granted it reads through
the address that `get_pa` gives. -/
def loadThrough (depth : Nat) (s : KernelSystem) (pid addr : Nat) (type : AccessType) :
    Except Halt (Option (BitVec 8) × KernelSystem) := do
  let h ← s.accessPcb pid
  let (status, s) ← s.access depth pid addr type false
  if status = .ok then do
    match ← s.getPa depth h addr with
    | none => .ok (none, s)
    | some (f, offset) => .ok (some ((s.userspc f).byte (offsetOf offset)), s)
  else .ok (none, s)

end KernelSystem

namespace KernelInv

variable {g g' : Layout} {s s' : KernelSystem} {v : LPage} {p : Page} {off : Fin 1024}
  {b : BitVec 8}

/-- A page of no segment has no contents. -/
theorem content_outside (hinv : KernelInv g noHand noHand s)
    (hinseg : (g.desc v).getInseg = false) : s.content (g.desc v) = none := by
  apply content_none
  · intro hr
    have hin : (g.desc v).getInseg = true := (hinv.user.clusters.shape v hr).1
    cases hinseg.symm.trans hin
  · intro hout
    cases hinseg.symm.trans hout.2.1

theorem holds_eq (hinv : KernelInv g noHand noHand s) (hsound : g.Sound)
    (hmaster : s.HasMaster v.proc) : s.holds v = s.content (g.desc v) := by
  obtain ⟨m, hm⟩ := hinv.hasMaster_iff.mp hmaster
  rw [holds, hinv.descriptor_eq (not_noMaster hm) (hsound _ _ m hm)]
  split
  · rename_i hgone
    rw [hinv.content_outside (hinv.inseg_nowhere (.inl hgone))]
    rfl
  · rfl

theorem hasMaster_of_live {h : Nat} (hinv : KernelInv g noHand noHand s) (hall : s.AllMasters)
    (hlive : (s.pcbs h).isSome = true) : s.HasMaster h := hall h (hinv.pcb_lt hlive) hlive

/-- A page with contents is one of a process. -/
theorem hasMaster_of_holds (hinv : KernelInv g noHand noHand s) (hall : s.AllMasters)
    (hp : s.holds v = some p) : s.HasMaster v.proc := by
  apply hinv.hasMaster_of_live hall
  cases hpcb : s.pcbs v.proc with
  | some => rfl
  | none =>
      rw [holds_of_gone hpcb] at hp
      cases hp

/-- A byte of the memory is one of a page of the layout. -/
theorem memory_eq (hinv : KernelInv g noHand noHand s) (hsound : g.Sound) (hall : s.AllMasters)
    (hb : s.memory (v, off) = some b) :
    s.HasMaster v.proc ∧ ∃ p, s.content (g.desc v) = some p ∧ p.byte off = b := by
  obtain ⟨p, hp, hbyte⟩ := Option.map_eq_some_iff.mp hb
  have hmaster := hinv.hasMaster_of_holds hall hp
  exact ⟨hmaster, p, (hinv.holds_eq hsound hmaster).symm.trans hp, hbyte⟩

theorem memory_of_content (hinv : KernelInv g noHand noHand s) (hsound : g.Sound)
    (hmaster : s.HasMaster v.proc) (hp : s.content (g.desc v) = some p) :
    s.memory (v, off) = some (p.byte off) := by
  rw [memory, hinv.holds_eq hsound hmaster, hp, Option.map_some]

/-- An address in a page with contents leads to that page. -/
theorem resolve_of_memory {h addr : Nat} (hinv : KernelInv g noHand noHand s)
    (hsound : g.Sound) (hall : s.AllMasters) (hb : s.memory (pageOf h addr, off) = some b)
    (depth : Nat) : s.resolve (depth + 1) h addr = some (pageOf h addr) := by
  obtain ⟨hmaster, p, hp, _⟩ := hinv.memory_eq hsound hall hb
  obtain ⟨m, hm⟩ := hinv.hasMaster_iff.mp hmaster
  have hplaced : (g.desc (pageOf h addr)).Resident ∨ (g.desc (pageOf h addr)).PagedOut := by
    by_contra hnot
    rw [not_or] at hnot
    rw [content_none hnot.1 hnot.2] at hp
    cases hp
  have hunshared : (g.desc (pageOf h addr)).getShared = false := by
    obtain hr | hout := hplaced
    · exact hr.1
    · exact hout.1
  have hinseg : (g.desc (pageOf h addr)).getInseg = true := by
    obtain hr | hout := hplaced
    · exact (hinv.user.clusters.shape _ hr).1
    · exact hout.2.1
  rw [resolve, hinv.descriptor_inseg hsound hm hinseg, Option.bind_some,
    if_neg (by simp [hunshared])]

end KernelInv

/-- A descriptor that can be read is that of a live process, in every layout. -/
theorem KernelSystem.AllMasters.desc {g : Layout} {s : KernelSystem} {v : LPage}
    {e : PageTableL2Entry}
    (hall : s.AllMasters) (hinv : KernelInv g noHand noHand s) (hsound : g.Sound)
    (he : s.descriptor v = some e) : s.HasMaster v.proc ∧ g.desc v = e := by
  have hmaster : s.HasMaster v.proc := by
    apply hinv.hasMaster_of_live hall
    cases hpcb : s.pcbs v.proc with
    | some => rfl
    | none => simp [descriptor, slotEntry, masterPage, hpcb] at he
  obtain ⟨m, hm⟩ := hinv.hasMaster_iff.mp hmaster
  exact ⟨hmaster, hinv.desc_of_descriptor hsound hm he⟩

/-- Paging ends no process. -/
theorem SameObjects.live {s s' : KernelSystem} {h : Nat} (hobjects : SameObjects s s')
    (hmaster : s.HasMaster h) : (s'.pcbs h).isSome = true := by
  obtain ⟨p, hp, _⟩ := hmaster
  have hrest := hobjects.pcbs h
  rw [hp] at hrest
  obtain ⟨q, hq, _⟩ := Option.map_eq_some_iff.mp hrest
  rw [hq]
  rfl

/-- Calls that remove nothing end no process. -/
theorem Registry.Step.live {r r' : Registry} {op : KernelOp} {h : Nat} (hstep : r.Step op r')
    (hkeeps : ¬ op.Removes) (hlive : (r.process h).isSome = true) :
    (r'.process h).isSome = true := by
  have hupdate : ∀ {process : Nat → Option (Nat × Option Nat)} {x : Nat} {rest},
      (process h).isSome = true → (update process x (some rest) h).isSome = true := by
    intro process x rest hsome
    by_cases hx : h = x
    · subst x
      simp
    · rwa [update_of_ne hx]
  cases op with
  | createProcess | cloneProcess =>
      obtain ⟨_, _, _, _, rfl⟩ := hstep
      exact hupdate hlive
  | createSharedSegment =>
      obtain rfl | ⟨_, _, dummy, _, ⟨rfl, vec, _, rfl⟩, rfl⟩ := hstep
      · exact hlive
      · by_cases hx : h = r.nextPcb
        · subst h
          simp
        · simpa [update_of_ne hx] using hlive
  | createSegment | loadSegment | pageFault | access =>
      cases hstep
      exact hlive
  | deleteProcess | disconnectSharedSegment | deleteSegment | deleteSharedSegment =>
      exact absurd trivial hkeeps

section Keeps

variable {g g' : Layout} {s s' : KernelSystem} {spares : LPage → Fin 1024 → Prop}
  {outside : KTable → Prop} {loose : KTable → Prop} {mine : Nat → Prop} {but : LPage → Prop}

/-- What passes through paging is kept in memory. -/
theorem Passed.memory (hpassed : Passed spares outside g s g' s')
    (hinv : KernelInv g noHand noHand s) (hsound : g.Sound) (hall : s.AllMasters)
    (hinv' : KernelInv g' noHand noHand s') (hall' : s'.AllMasters) :
    Keeps (fun c => spares c.1 c.2) s.memory s'.memory := by
  rintro ⟨v, off⟩ b hspared hb
  obtain ⟨hmaster, p, hp, hbyte⟩ := hinv.memory_eq hsound hall hb
  obtain ⟨p', hp', hbytes⟩ := hpassed.bytes v p hp
  have hmaster' : s'.HasMaster v.proc :=
    hinv'.hasMaster_of_live hall' (hpassed.objects.live hmaster)
  rw [hinv'.memory_of_content (hpassed.sound hsound) hmaster' hp', hbytes off hspared, hbyte]

/-- What a step carries along is kept in memory, if the pages that it is about had no contents
and no process ends. -/
theorem Carried.memory (hcarried : Carried loose mine but g s g' s')
    (hinv : KernelInv g noHand noHand s) (hsound : g.Sound) (hall : s.AllMasters)
    (hinv' : KernelInv g' noHand noHand s')
    (hall' : s'.AllMasters) (hbut : ∀ v, but v → (g.desc v).getInseg = false)
    (hlive : ∀ h, s.HasMaster h → (s'.pcbs h).isSome = true) :
    Keeps (fun _ => True) s.memory s'.memory := by
  rintro ⟨v, off⟩ b _ hb
  obtain ⟨hmaster, p, hp, hbyte⟩ := hinv.memory_eq hsound hall hb
  have hnot : ¬ but v := fun hv => by
    rw [hinv.content_outside (hbut v hv)] at hp
    cases hp
  have hmaster' : s'.HasMaster v.proc := hinv'.hasMaster_of_live hall' (hlive _ hmaster)
  rw [hinv'.memory_of_content (hcarried.sound hsound) hmaster'
    ((hcarried.pages v hnot).2.trans hp), hbyte]

/-- What a page holds that a step is not about, unless its process ends. -/
theorem Carried.holds_eq {v : LPage} (hcarried : Carried loose mine but g s g' s')
    (hinv : KernelInv g noHand noHand s) (hsound : g.Sound) (hall : s.AllMasters)
    (hinv' : KernelInv g' noHand noHand s') (hall' : s'.AllMasters) (hnot : ¬ but v)
    (hlive : (s.pcbs v.proc).isSome = true → (s'.pcbs v.proc).isSome = true)
    (hmade : (s'.pcbs v.proc).isSome = true →
      (s.pcbs v.proc).isSome = true ∨ MadeSince s v.proc) : s'.holds v = s.holds v := by
  have hkept := (hcarried.pages v hnot).2
  by_cases hpcb : (s.pcbs v.proc).isSome = true
  · rw [hinv.holds_eq hsound (hinv.hasMaster_of_live hall hpcb),
      hinv'.holds_eq (hcarried.sound hsound) (hinv'.hasMaster_of_live hall' (hlive hpcb))]
    exact hkept
  · rw [holds_of_gone (Option.not_isSome_iff_eq_none.mp hpcb)]
    by_cases hpcb' : (s'.pcbs v.proc).isSome = true
    · have hnew := (hmade hpcb').resolve_left hpcb
      have hnowhere := hinv.inseg_nowhere (.inl ((hinv.fresh _ hnew).2 v.slot))
      rw [hinv'.holds_eq (hcarried.sound hsound) (hinv'.hasMaster_of_live hall' hpcb')]
      exact hkept.trans (hinv.content_outside hnowhere)
    · exact holds_of_gone (Option.not_isSome_iff_eq_none.mp hpcb')

/-- Where a step takes pages out of their segments, a byte is what it was or is gone. -/
theorem Carried.memory_removed (hcarried : Carried loose mine but g s g' s')
    (hinv : KernelInv g noHand noHand s) (hsound : g.Sound) (hall : s.AllMasters)
    (hinv' : KernelInv g' noHand noHand s') (hall' : s'.AllMasters)
    (hbut : ∀ v, but v → (g'.desc v).getInseg = false) (c : LByte) (b : BitVec 8)
    (hb : s.memory c = some b) : s'.memory c = some b ∨ s'.memory c = none := by
  obtain ⟨v, off⟩ := c
  obtain ⟨_, p, hp, hbyte⟩ := hinv.memory_eq hsound hall hb
  cases hb' : s'.memory (v, off) with
  | none => exact .inr rfl
  | some b' =>
      obtain ⟨_, p', hp', hbyte'⟩ := hinv'.memory_eq (hcarried.sound hsound) hall' hb'
      have hnot : ¬ but v := fun hv => by
        rw [hinv'.content_outside (hbut v hv)] at hp'
        cases hp'
      cases hp'.symm.trans ((hcarried.pages v hnot).2.trans hp)
      exact .inl (congrArg some (hbyte'.symm.trans hbyte))

end Keeps

namespace KernelInv

variable {g : Layout} {s s' : KernelSystem} {v : LPage} {depth h addr pid : Nat}
  {type : AccessType} {off : Fin 1024} {b value : BitVec 8}

theorem granted_some (hgranted : s.granted depth pid addr type = some (v, off)) :
    ∃ h s₁, s.accessPcb pid = .ok h ∧ s.access depth pid addr type false = .ok (.ok, s₁) ∧
      s.resolve depth h addr = some v ∧ off = offsetOf addr := by
  unfold granted at hgranted
  split at hgranted
  · rename_i h s₁ hpcb haccess
    obtain ⟨u, hu, heq⟩ := Option.map_eq_some_iff.mp hgranted
    cases heq
    exact ⟨h, s₁, hpcb, haccess, hu, rfl⟩
  · cases hgranted

/-- Where a byte is loaded, the access was granted. -/
theorem access_of_loaded (hpcb : s.accessPcb pid = .ok h)
    (hload : s.loadThrough depth pid addr type = .ok (some b, s')) :
    ∃ s₁, s.access depth pid addr type false = .ok (.ok, s₁) := by
  simp only [loadThrough, hpcb, Outcome.ok_bind] at hload
  obtain ⟨⟨status, s₁⟩, haccess, hrest⟩ := Outcome.bind_ok hload
  by_cases hok : status = .ok
  · exact ⟨s₁, hok ▸ haccess⟩
  · dsimp only at hrest
    rw [if_neg hok] at hrest
    cases hrest

/-- An access that no byte is granted with is refused. -/
theorem refused_of_granted {status : Status} {s₁ : KernelSystem}
    (hinv : KernelInv g noHand noHand s) (hsound : g.Sound) (hpcb : s.accessPcb pid = .ok h)
    (hmasters : MastersIn depth s h addr) (hnone : s.granted depth pid addr type = none)
    (haccess : s.access depth pid addr type false = .ok (status, s₁)) : status ≠ .ok := by
  rintro rfl
  obtain ⟨_, _, _, hok⟩ := hinv.access_passed hsound hmasters hpcb haccess
  obtain ⟨v, hleads, _⟩ := hok rfl
  simp [granted, hpcb, haccess, hleads.resolve_eq hinv hsound] at hnone

/-- The byte that is granted is one of the memory. -/
theorem granted_there (hinv : KernelInv g noHand noHand s) (hsound : g.Sound)
    (hpcb : s.accessPcb pid = .ok h) (hmasters : MastersIn depth s h addr)
    (hgranted : s.granted depth pid addr type = some (v, off)) :
    Leads g s depth h addr v ∧ s.HasMaster v.proc ∧
      s.memory (v, off) = some ((s.userspc (g.desc v).block).byte off) := by
  obtain ⟨h', s₁, hpcb', haccess, hresolve, _⟩ := granted_some hgranted
  cases hpcb.symm.trans hpcb'
  obtain ⟨_, _, _, hok⟩ := hinv.access_passed hsound hmasters hpcb haccess
  obtain ⟨u, hleads, _⟩ := hok rfl
  cases (hleads.resolve_eq hinv hsound).symm.trans hresolve
  obtain ⟨f, hf⟩ := hinv.resident_frame hleads.resident
  have hmaster : s.HasMaster v.proc := hinv.hasMaster_iff.mpr (hinv.master_of_table hf)
  exact ⟨hleads, hmaster,
    hinv.memory_of_content hsound hmaster (content_resident hleads.resident)⟩

/-- A granted store changes its byte and keeps the others. -/
theorem store_memory (hinv : KernelInv g noHand noHand s) (hsound : g.Sound)
    (hall : s.AllMasters) (hall' : s'.AllMasters) (hpcb : s.accessPcb pid = .ok h)
    (hmasters : MastersIn depth s h addr)
    (hgranted : s.granted depth pid addr .write = some (v, off))
    (hstore : s.storeThrough depth pid addr value = .ok s') :
    FlatMemory.Step s.memory (.store (v, off) value) s'.memory := by
  obtain ⟨_, hmaster, hthere⟩ := hinv.granted_there hsound hpcb hmasters hgranted
  obtain ⟨h', s₁, hpcb', haccess, hresolve, rfl⟩ := granted_some hgranted
  cases hpcb.symm.trans hpcb'
  obtain ⟨u, g', p, hu, hinv', hpassed, hp, hbyte⟩ :=
    hinv.storeThrough_granted hsound hmasters hpcb haccess hstore
  cases hu.symm.trans hresolve
  have hmaster' : s'.HasMaster v.proc :=
    hinv'.hasMaster_of_live hall' (hpassed.objects.live hmaster)
  refine ⟨⟨_, hthere⟩, ?_, fun c b hne hb => ?_⟩
  · rw [hinv'.memory_of_content (hpassed.sound hsound) hmaster' hp, hbyte]
  · refine hpassed.memory hinv hsound hall hinv' hall' c b (fun hv hoff => hne ?_) hb
    exact Prod.ext hv hoff

/-- A granted load reads its byte of the memory. -/
theorem load_memory (hinv : KernelInv g noHand noHand s) (hsound : g.Sound)
    (hpcb : s.accessPcb pid = .ok h) (hmasters : MastersIn depth s h addr)
    (hgranted : s.granted depth pid addr type = some (v, off))
    (hload : s.loadThrough depth pid addr type = .ok (some b, s')) :
    s.memory (v, off) = some b := by
  obtain ⟨hleads, _, hthere⟩ := hinv.granted_there hsound hpcb hmasters hgranted
  obtain ⟨h', s₁, hpcb', haccess, hresolve, rfl⟩ := granted_some hgranted
  cases hpcb.symm.trans hpcb'
  obtain ⟨g₁, hinv₁, hpassed, hok⟩ := hinv.access_passed hsound hmasters hpcb haccess
  obtain ⟨u, hleads', hmarked⟩ := hok rfl
  cases (hleads'.resolve_eq hinv hsound).symm.trans hresolve
  have hleads₁ : Leads g₁ s₁ depth h addr v :=
    hleads'.congr hmarked.place hmarked.ssegVec hmarked.desc_or
  obtain ⟨p, hp, hbytes⟩ := hpassed.bytes v _ (content_resident hleads.resident)
  rw [content_resident hleads₁.resident] at hp
  simp only [loadThrough, hpcb, Outcome.ok_bind, haccess, if_true, hleads₁.getPa_eq hinv₁,
    offsetOf, pageSize, Nat.mod_mod] at hload
  cases hload
  rw [hthere, ← hbytes (offsetOf addr) trivial, ← Option.some.inj hp]
  rfl

end KernelInv

/-- What may happen to a kernel: a public call, paging on its own or by the processes' stores,
and the processes' loads. -/
inductive MemoryOp where
  | call (op : KernelOp)
  | paging (op : PagingOp)
  | load (pid addr : Nat) (type : AccessType)

instance (op : KernelOp) : Decidable op.Removes := match op with
  | .deleteProcess _ | .disconnectSharedSegment .. | .deleteSegment .. | .deleteSharedSegment _ =>
      .isTrue trivial
  | .createProcess | .cloneProcess _ | .createSegment .. | .loadSegment ..
  | .createSharedSegment .. | .pageFault .. | .access .. => .isFalse id

namespace MemoryOp

def exec (levels : Nat) (s : KernelSystem) : MemoryOp → Except Halt KernelSystem
  | .call op => op.exec levels s
  | .paging op => op.exec levels s
  | .load pid addr type => do
      let (_, s) ← s.loadThrough levels pid addr type
      .ok s

/-- The call is orderly, and what it goes through is in memory. -/
def Proceeds (levels : Nat) (s : KernelSystem) : MemoryOp → Prop
  | .call op => op.Orderly levels s
  | .paging op => op.Proceeds levels s
  | .load pid addr _ => ∀ h, s.accessPcb pid = .ok h → MastersIn levels s h addr

/-- A step that evicts no master table. -/
structure Step (levels : Nat) (s : KernelSystem) (op : MemoryOp) (s' : KernelSystem) : Prop where
  proceeds : op.Proceeds levels s
  exec : op.exec levels s = .ok s'
  masters : s'.AllMasters

/-- What the processes see of a step. -/
def event (levels : Nat) (s : KernelSystem) : MemoryOp → Event LByte (BitVec 8)
  | .call op => if op.Removes then .remove else .quiet
  | .paging (.store pid addr value) =>
      match s.granted levels pid addr .write with
      | some c => .store c value
      | none => .quiet
  | .paging _ => .quiet
  | .load pid addr type =>
      match s.granted levels pid addr type, s.loadThrough levels pid addr type with
      | some c, .ok (some b, _) => .load c b
      | _, _ => .quiet

/-- What the processes see of a run. -/
def events (levels : Nat) (s : KernelSystem) (ops : List MemoryOp) :
    List (Event LByte (BitVec 8)) :=
  Run.observe (fun s (op : MemoryOp) => (op.exec levels s).toOption) (event levels) s ops

variable {levels : Nat} {g : Layout} {s s' : KernelSystem}

theorem event_call {op : KernelOp} (hnot : ¬ op.Removes) :
    (call op).event levels s = .quiet := if_neg hnot

/-- Faults and accesses let everything pass. -/
theorem call_passed {op : KernelOp} (hinv : KernelInv g noHand noHand s) (hsound : g.Sound)
    (hadds : ¬ op.Adds) (hremoves : ¬ op.Removes) (horderly : op.Orderly levels s)
    (hexec : op.exec levels s = .ok s') :
    ∃ g' outside, KernelInv g' noHand noHand s' ∧
      Passed (fun _ _ => True) outside g s g' s' := by
  have horder := horderly.order
  cases op with
  | createProcess | cloneProcess | createSegment | loadSegment | createSharedSegment =>
      exact absurd trivial hadds
  | deleteProcess | disconnectSharedSegment | deleteSegment | deleteSharedSegment =>
      exact absurd trivial hremoves
  | pageFault h addr =>
      obtain ⟨g', hinv', hpassed⟩ := hinv.pageFault_passed hsound horder hexec
      exact ⟨g', _, hinv', hpassed⟩
  | access pid addr type =>
      obtain ⟨⟨status, s₁⟩, haccess, hret⟩ := Outcome.bind_ok hexec
      cases hret
      obtain ⟨h, hpcb⟩ := access_pcb haccess
      obtain ⟨g', hinv', hpassed, _⟩ := hinv.access_passed hsound (horder h hpcb) hpcb haccess
      exact ⟨g', _, hinv', hpassed⟩

/-- A public call keeps what the pages contain, or takes pages away. -/
theorem call_memory {op : KernelOp} (hinv : KernelInv g noHand noHand s) (hsound : g.Sound)
    (hall : s.AllMasters) (hall' : s'.AllMasters) (horderly : op.Orderly levels s)
    (hexec : op.exec levels s = .ok s') :
    s'.Consistent ∧ FlatMemory.Step s.memory ((call op).event levels s) s'.memory := by
  by_cases hremoves : op.Removes
  · obtain ⟨g', _, _, _, hinv', hcarried, hbut⟩ :=
      hinv.removes_carried hsound hremoves horderly hexec
    rw [event, if_pos hremoves]
    exact ⟨⟨g', hinv', hcarried.sound hsound⟩,
      hcarried.memory_removed hinv hsound hall hinv' hall' fun v hv => (hbut v hv).1⟩
  · rw [event_call hremoves]
    by_cases hadds : op.Adds
    · obtain ⟨g', _, _, _, hinv', hcarried, hbut⟩ :=
        hinv.adds_carried hsound hadds horderly hexec
      refine ⟨⟨g', hinv', hcarried.sound hsound⟩, hcarried.memory hinv hsound hall hinv' hall'
        (fun v hv => (hbut v hv).1) fun h hmaster => ?_⟩
      have hlive := (KernelOp.step_registry hexec).live hremoves (h := h)
      simp only [registry, Option.isSome_map] at hlive
      obtain ⟨p, hp, _⟩ := hmaster
      exact hlive (by rw [hp]; rfl)
    · obtain ⟨g', _, hinv', hpassed⟩ := call_passed hinv hsound hadds hremoves horderly hexec
      exact ⟨⟨g', hinv', hpassed.sound hsound⟩, fun c b _ =>
        hpassed.memory hinv hsound hall hinv' hall' c b trivial⟩

/-- Paging keeps what the pages contain, apart from the byte of a granted store. -/
theorem paging_memory {op : PagingOp} (hinv : KernelInv g noHand noHand s) (hsound : g.Sound)
    (hall : s.AllMasters) (hall' : s'.AllMasters) (hproceeds : op.Proceeds levels s)
    (hexec : op.exec levels s = .ok s') :
    s'.Consistent ∧ FlatMemory.Step s.memory ((paging op).event levels s) s'.memory := by
  obtain ⟨g', hinv', hpassed⟩ := op.passed hinv hsound hproceeds hexec
  refine ⟨⟨g', hinv', hpassed.sound hsound⟩, ?_⟩
  have hkeeps := hpassed.memory hinv hsound hall hinv' hall'
  cases op with
  | pageFault | access | evictPage | evictTable | reload =>
      exact fun c b _ => hkeeps c b trivial
  | store pid addr value =>
      obtain ⟨h, hpcb, hrest⟩ := Outcome.bind_ok hexec
      obtain ⟨⟨status, s₁⟩, haccess, hrest⟩ := Outcome.bind_ok hrest
      have hmasters := hproceeds h hpcb
      cases hgranted : s.granted levels pid addr .write with
      | some c =>
          simp only [event, hgranted]
          exact hinv.store_memory hsound hall hall' hpcb hmasters hgranted hexec
      | none =>
          simp only [event, hgranted]
          have hrefused := hinv.refused_of_granted hsound hpcb hmasters hgranted haccess
          dsimp only at hrest
          rw [if_neg hrefused] at hrest
          cases hrest
          obtain ⟨g₁, hinv₁, hpassed₁, _⟩ := hinv.access_passed hsound hmasters hpcb haccess
          exact fun c b _ => hpassed₁.memory hinv hsound hall hinv₁ hall' c b trivial

/-- A load leaves the state that its access left. -/
theorem load_passed {h pid addr : Nat} {type : AccessType} {answer : Option (BitVec 8)}
    (hinv : KernelInv g noHand noHand s) (hsound : g.Sound) (hpcb : s.accessPcb pid = .ok h)
    (hmasters : MastersIn levels s h addr)
    (hload : s.loadThrough levels pid addr type = .ok (answer, s')) :
    ∃ g', KernelInv g' noHand noHand s' ∧ PassedAll g s g' s' := by
  simp only [loadThrough, hpcb, Outcome.ok_bind] at hload
  obtain ⟨⟨status, s₁⟩, haccess, hrest⟩ := Outcome.bind_ok hload
  obtain ⟨g', hinv', hpassed, _⟩ := hinv.access_passed hsound hmasters hpcb haccess
  obtain rfl : s' = s₁ := by
    dsimp only at hrest
    split at hrest
    · obtain ⟨pa, _, hret⟩ := Outcome.bind_ok hrest
      split at hret <;> cases hret <;> rfl
    · cases hrest
      rfl
  exact ⟨g', hinv', hpassed⟩

/-- A load keeps what the pages contain, and reads it. -/
theorem load_step {pid addr : Nat} {type : AccessType} (hinv : KernelInv g noHand noHand s)
    (hsound : g.Sound) (hall : s.AllMasters) (hall' : s'.AllMasters)
    (hproceeds : (load pid addr type).Proceeds levels s)
    (hexec : (load pid addr type).exec levels s = .ok s') :
    s'.Consistent ∧ FlatMemory.Step s.memory ((load pid addr type).event levels s) s'.memory := by
  obtain ⟨⟨answer, s₁⟩, hload, hret⟩ := Outcome.bind_ok hexec
  cases hret
  obtain ⟨h, hpcb, _⟩ := Outcome.bind_ok hload
  have hmasters := hproceeds h hpcb
  obtain ⟨g', hinv', hpassed⟩ := load_passed hinv hsound hpcb hmasters hload
  have hkeeps : Keeps (fun _ => True) s.memory s'.memory := fun c b _ =>
    hpassed.memory hinv hsound hall hinv' hall' c b trivial
  refine ⟨⟨g', hinv', hpassed.sound hsound⟩, ?_⟩
  dsimp only [event]
  split
  · rename_i c b _ hgranted hread
    cases hload.symm.trans hread
    exact ⟨hinv.load_memory hsound hpcb hmasters hgranted hload, hkeeps⟩
  · exact hkeeps

theorem Step.memory {op : MemoryOp} (hcons : s.Consistent) (hall : s.AllMasters)
    (hstep : op.Step levels s s') : (s'.Consistent ∧ s'.AllMasters) ∧
      FlatMemory.Step s.memory (op.event levels s) s'.memory := by
  obtain ⟨g, hinv, hsound⟩ := hcons
  have hstepped : s'.Consistent ∧ FlatMemory.Step s.memory (op.event levels s) s'.memory := by
    cases op with
    | call op => exact call_memory hinv hsound hall hstep.masters hstep.proceeds hstep.exec
    | paging op => exact paging_memory hinv hsound hall hstep.masters hstep.proceeds hstep.exec
    | load => exact load_step hinv hsound hall hstep.masters hstep.proceeds hstep.exec
  exact ⟨⟨hstepped.1, hstep.masters⟩, hstepped.2⟩

end MemoryOp

namespace KernelSystem

/-- A test of `MastersIn`. -/
def mastersIn : Nat → KernelSystem → Nat → Nat → Bool
  | 0, _, _, _ => true
  | depth + 1, s, h, addr => decide (s.HasMaster h) &&
      (s.descriptor (pageOf h addr)).all fun e => !e.getShared ||
        (s.ssegVec.atIndex e.ssegInd.toNat).toOption.all fun d =>
          mastersIn depth s d (ssegAddr e addr)

theorem mastersIn_of_check {s : KernelSystem} : ∀ {depth h addr : Nat},
    s.mastersIn depth h addr = true → MastersIn depth s h addr
  | 0, _, _, _ => trivial
  | depth + 1, h, addr, htest => by
      simp only [mastersIn, Bool.and_eq_true, decide_eq_true_eq, Option.all_eq_true,
        Bool.or_eq_true, Bool.not_eq_true'] at htest
      refine ⟨htest.1, fun e he hshared d hd => ?_⟩
      obtain hnot | hrest := htest.2 e he
      · cases hshared.symm.trans hnot
      · exact mastersIn_of_check (hrest d (by rw [hd]; rfl))

/-- A test of `FaultsIn`. -/
def faultsIn : Nat → KernelSystem → Nat → Nat → Bool
  | 0, _, _, _ => true
  | depth + 1, s, h, addr => decide (s.HasMaster h) && decide (s.InSegment (pageOf h addr)) &&
      (s.faultTable h addr).toOption.all fun r => !(r.2.mem r.1).getShared ||
        (r.2.ssegVec.atIndex (r.2.mem r.1).ssegInd.toNat).toOption.all fun d =>
          faultsIn depth r.2 d (ssegAddr (r.2.mem r.1) addr)

theorem faultsIn_of_check : ∀ {depth : Nat} {s : KernelSystem} {h addr : Nat},
    s.faultsIn depth h addr = true → FaultsIn depth s h addr
  | 0, _, _, _, _ => trivial
  | depth + 1, s, h, addr, htest => by
      simp only [faultsIn, Bool.and_eq_true, decide_eq_true_eq, Option.all_eq_true,
        Bool.or_eq_true, Bool.not_eq_true'] at htest
      refine ⟨htest.1.1, htest.1.2, fun ptl2e s₁ d htable hshared hd => ?_⟩
      obtain hnot | hrest := htest.2 (ptl2e, s₁) (by rw [htable]; rfl)
      · cases hshared.symm.trans hnot
      · exact faultsIn_of_check (hrest d (by rw [hd]; rfl))

end KernelSystem

namespace MemoryOp

/-- A test of `Proceeds`, which clones and reloads fail. -/
def proceeds (levels : Nat) (s : KernelSystem) : MemoryOp → Bool
  | .call op => op.keepsOrder s
  | .paging (.pageFault h addr) => s.faultsIn levels h addr
  | .paging (.access pid addr _) | .paging (.store pid addr _) | .load pid addr _ =>
      (s.accessPcb pid).toOption.all fun h => s.mastersIn levels h addr
  | .paging (.evictPage f) => decide (f < s.userspcSize ∧ f ∉ s.usEmpty)
  | .paging (.evictTable f) => decide ((s.ksFt f).type = .ksPageTable ∧ f ∉ s.ksEmpty)
  | .paging (.reload ..) => false

theorem proceeds_of_check {levels : Nat} {s : KernelSystem} {op : MemoryOp}
    (htest : op.proceeds levels s = true) : op.Proceeds levels s := by
  have hmasters : ∀ {pid addr : Nat},
      ((s.accessPcb pid).toOption.all fun h => s.mastersIn levels h addr) = true →
      ∀ h, s.accessPcb pid = .ok h → MastersIn levels s h addr := by
    intro pid addr htest h hpcb
    rw [hpcb] at htest
    exact mastersIn_of_check htest
  cases op with
  | call op => exact KernelOp.orderly_of_keepsOrder htest
  | paging op =>
      cases op with
      | pageFault h addr => exact faultsIn_of_check htest
      | access | store => exact hmasters htest
      | evictPage f =>
          show f < s.userspcSize ∧ f ∉ s.usEmpty
          exact of_decide_eq_true htest
      | evictTable f =>
          show (s.ksFt f).type = .ksPageTable ∧ f ∉ s.ksEmpty
          exact of_decide_eq_true htest
      | reload => cases htest
  | load => exact hmasters htest

/-- Follow a run of a small kernel, as long as every step proceeds, no master table is evicted
and the states pass a check. -/
def follow (levels : Nat) (check : KernelSystem → Bool) (s : KernelSystem)
    (ops : List MemoryOp) : Option KernelSystem :=
  Run.follow (fun s op => if op.proceeds levels s then
    (op.exec levels s).toOption.filter fun s' => decide s'.AllMasters && check s' else none) s ops

theorem run_of_follow {levels : Nat} {check : KernelSystem → Bool} {s s' : KernelSystem}
    {ops : List MemoryOp} (hfollow : follow levels check s ops = some s') :
    Run (fun s op s' => op.Step levels s s' ∧ check s' = true) s ops s' := by
  refine Run.of_follow (fun s op s' hstep => ?_) hfollow
  split at hstep
  · rename_i hproceeds
    obtain ⟨hexec, hcheck⟩ := Option.filter_eq_some_iff.mp hstep
    simp only [Bool.and_eq_true, decide_eq_true_eq] at hcheck
    exact ⟨⟨proceeds_of_check hproceeds, Outcome.toOption_ok hexec, hcheck.1⟩, hcheck.2⟩
  · cases hstep

/-- States that are not checked. -/
def anyState (_ : KernelSystem) : Bool := true

/-- A booted kernel has no process. -/
theorem allMasters_of_booted {s : KernelSystem} (hstart : s.Booted) : s.AllMasters := by
  intro h _ hsome
  have hnone : s.registry.process h = none := by rw [hstart.registry]; rfl
  simp only [registry, Option.map_eq_none_iff] at hnone
  rw [hnone] at hsome
  cases hsome

end MemoryOp

namespace MemoryOp

variable {levels : Nat} {s s' : KernelSystem}

theorem consistent_of_run {ops : List MemoryOp} (hcons : s.Consistent) (hall : s.AllMasters)
    (hrun : Run (fun s op s' => op.Step levels s s') s ops s') :
    s'.Consistent ∧ s'.AllMasters :=
  hrun.invariant (fun s => s.Consistent ∧ s.AllMasters)
    (fun _ _ _ hI hstep => (hstep.memory hI.1 hI.2).1) ⟨hcons, hall⟩

/-- The kernel is a flat memory to its processes: every run in which no master table is
evicted makes and removes pages, and stores and loads bytes, and does nothing else to what the
pages contain. -/
theorem kernel_refines_memory {ops : List MemoryOp} (hcons : s.Consistent)
    (hall : s.AllMasters) (hrun : Run (fun s op s' => op.Step levels s s') s ops s') :
    (s'.Consistent ∧ s'.AllMasters) ∧
      Run FlatMemory.Step s.memory (events levels s ops) s'.memory :=
  hrun.simulate_observed _ _ (fun s => s.Consistent ∧ s.AllMasters) memory
    (fun _ _ _ hstep => by rw [hstep.exec]; rfl)
    (fun _ _ _ hI hstep => hstep.memory hI.1 hI.2) ⟨hcons, hall⟩

/-- A small kernel after a few steps. -/
def booted (userspcSize frames clusters : Nat) (dice : List Nat) (ops : List MemoryOp) :
    Option KernelSystem :=
  (smallKernel userspcSize frames clusters dice).toOption.bind fun start =>
    if start.userspcSize ≤ 65536 ∧ start.krnlspcSize ≤ 65536 then follow 1 anyState start ops
    else none

theorem booted_consistent {userspcSize frames clusters : Nat} {dice : List Nat}
    {ops : List MemoryOp} (hbooted : booted userspcSize frames clusters dice ops = some s) :
    s.Consistent ∧ s.AllMasters := by
  obtain ⟨start, hboot, hrest⟩ := Option.bind_eq_some_iff.mp hbooted
  split at hrest
  · rename_i hsizes
    have hstart := smallKernel_booted (Outcome.toOption_ok hboot)
    exact consistent_of_run ⟨_, hstart.inv hsizes.1 hsizes.2, Layout.sound_none⟩
      (allMasters_of_booted hstart) ((run_of_follow hrest).weaken fun _ _ _ => And.left)
  · cases hrest

/-- A kernel with one user frame, and a process with two pages, the first of which it used. -/
def twoPages : Option KernelSystem :=
  booted 1 4 8 [0, 0] [.call .createProcess, .call (.createSegment 0 0 2 .readWrite),
    .paging (.pageFault 0 0)]

/-- A process stores a byte, its page is evicted for another one, and comes back. -/
def storedAndEvicted : List MemoryOp :=
  [.paging (.store 0 0 5#8), .paging (.pageFault 0 1024), .paging (.pageFault 0 0)]

/-- A byte that is stored, evicted and loaded. -/
theorem kernel_refines_memory_stored : ∃ s s' : KernelSystem,
    Run FlatMemory.Step s.memory [.store (pageOf 0 0, 0) 5#8, .quiet, .quiet,
      .load (pageOf 0 0, 0) 5#8] s'.memory := by
  have hruns : twoPages.any (fun s =>
      (follow 1 anyState s (storedAndEvicted ++ [.load 0 0 .read])).isSome &&
      decide (events 1 s (storedAndEvicted ++ [.load 0 0 .read]) =
        [.store (pageOf 0 0, 0) 5#8, .quiet, .quiet, .load (pageOf 0 0, 0) 5#8])) = true := by
    decide +kernel
  obtain ⟨s, hs, hcheck⟩ := (Option.any_eq_true _ _).mp hruns
  simp only [Bool.and_eq_true, decide_eq_true_eq] at hcheck
  obtain ⟨s', hfollow⟩ := Option.isSome_iff_exists.mp hcheck.1
  obtain ⟨hcons, hall⟩ := booted_consistent hs
  have hrefines := kernel_refines_memory hcons hall
    ((run_of_follow hfollow).weaken fun _ _ _ => And.left)
  rw [hcheck.2] at hrefines
  exact ⟨s, s', hrefines.2⟩

/-- A byte that is there all along has the value that was stored in it last. -/
theorem memory_of_run {ops : List MemoryOp} {c : LByte} {b : BitVec 8} (hcons : s.Consistent)
    (hall : s.AllMasters)
    (hrun : Run (fun s op s' => op.Step levels s s' ∧ ∃ b, s'.memory c = some b) s ops s')
    (hthere : s.memory c = some b) :
    (s'.Consistent ∧ s'.AllMasters) ∧
      s'.memory c = some (lastStored c b (events levels s ops)) := by
  obtain ⟨hcons', hevents⟩ : (s'.Consistent ∧ s'.AllMasters) ∧
      Run (fun m event m' => FlatMemory.Step m event m' ∧ ∃ b, m' c = some b)
        s.memory (events levels s ops) s'.memory :=
    hrun.simulate_observed _ _ (fun s => s.Consistent ∧ s.AllMasters) memory
      (fun _ _ _ hstep => by rw [hstep.1.exec]; rfl)
      (fun _ _ _ hI hstep =>
        ⟨(hstep.1.memory hI.1 hI.2).1, (hstep.1.memory hI.1 hI.2).2, hstep.2⟩) ⟨hcons, hall⟩
  exact ⟨hcons', present_of_run hevents hthere⟩

/-- What is loaded is in the memory, at the page that the address leads to. -/
theorem memory_of_load {g : Layout} {h pid addr : Nat} {type : AccessType} {v : LPage}
    {value : BitVec 8} (hinv : KernelInv g noHand noHand s) (hsound : g.Sound)
    (hpcb : s.accessPcb pid = .ok h) (hmasters : MastersIn levels s h addr)
    (hresolve : s.resolve levels h addr = some v)
    (hload : s.loadThrough levels pid addr type = .ok (some value, s')) :
    s.memory (v, offsetOf addr) = some value := by
  obtain ⟨s₁, haccess⟩ := KernelInv.access_of_loaded hpcb hload
  have hgranted : s.granted levels pid addr type = some (v, offsetOf addr) := by
    simp [granted, hpcb, haccess, hresolve]
  exact hinv.load_memory hsound hpcb hmasters hgranted hload

/-- What a process loads from a page of its own is what was stored there last. -/
theorem loads_own_page {ops : List MemoryOp} {t : KernelSystem} {pid addr h : Nat}
    {type : AccessType} {b value : BitVec 8} (hcons : s.Consistent) (hall : s.AllMasters)
    (hrun : Run (fun s op s' => op.Step levels s s' ∧
      ∃ b, s'.memory (pageOf h addr, offsetOf addr) = some b) s ops s')
    (hthere : s.memory (pageOf h addr, offsetOf addr) = some b)
    (hpcb : s'.accessPcb pid = .ok h) (hmasters : MastersIn levels s' h addr)
    (hload : s'.loadThrough levels pid addr type = .ok (some value, t)) :
    value = lastStored (pageOf h addr, offsetOf addr) b (events levels s ops) := by
  obtain ⟨⟨⟨g, hinv, hsound⟩, hall'⟩, hlast⟩ := memory_of_run hcons hall hrun hthere
  obtain ⟨s₁, haccess⟩ := KernelInv.access_of_loaded hpcb hload
  cases levels with
  | zero => cases haccess
  | succ depth =>
      have hresolve := hinv.resolve_of_memory hsound hall' hlast depth
      have hread := memory_of_load hinv hsound hpcb hmasters hresolve hload
      exact Option.some.inj (hread.symm.trans hlast)

/-- What a process loads is what was stored there last, by whichever process and through
whichever mapping, if the page was there all along. -/
theorem loads_last_stored {ops : List MemoryOp} {s'' : KernelSystem} {h pid addr : Nat}
    {type : AccessType} {v : LPage} {b value : BitVec 8} (hcons : s.Consistent)
    (hall : s.AllMasters)
    (hrun : Run (fun s op s' => op.Step levels s s' ∧
      ∃ b, s'.memory (v, offsetOf addr) = some b) s ops s')
    (hthere : s.memory (v, offsetOf addr) = some b) (hpcb : s'.accessPcb pid = .ok h)
    (hmasters : MastersIn levels s' h addr) (hresolve : s'.resolve levels h addr = some v)
    (hload : s'.loadThrough levels pid addr type = .ok (some value, s'')) :
    value = lastStored (v, offsetOf addr) b (events levels s ops) := by
  obtain ⟨⟨⟨g', hinv', hsound'⟩, _⟩, hlast⟩ := memory_of_run hcons hall hrun hthere
  have hread := memory_of_load hinv' hsound' hpcb hmasters hresolve hload
  exact Option.some.inj (hread.symm.trans hlast)

/-- The byte comes back with its page. -/
theorem loads_last_stored_five : ∃ (s s' s'' : KernelSystem) (b : BitVec 8),
    s'.loadThrough 1 0 0 .read = .ok (some 5#8, s'') ∧
      5#8 = lastStored (pageOf 0 0, offsetOf 0) b (events 1 s storedAndEvicted) := by
  have hruns : twoPages.any (fun s =>
      (s.memory (pageOf 0 0, offsetOf 0)).isSome &&
      (follow 1 (fun s => (s.memory (pageOf 0 0, offsetOf 0)).isSome) s storedAndEvicted).any
        fun s' => decide ((s'.accessPcb 0).toOption = some 0) && s'.mastersIn 1 0 0 &&
          decide (s'.resolve 1 0 0 = some (pageOf 0 0)) &&
          Outcome.holds (s'.loadThrough 1 0 0 .read) fun r => decide (r.1 = some 5#8)) = true := by
    decide +kernel
  obtain ⟨s, hs, hcheck⟩ := (Option.any_eq_true _ _).mp hruns
  simp only [Bool.and_eq_true, Option.any_eq_true, decide_eq_true_eq] at hcheck
  obtain ⟨hthere, s', hfollow, ⟨⟨hpcb, hmasters⟩, hresolve⟩, hload⟩ := hcheck
  obtain ⟨b, hthere⟩ := Option.isSome_iff_exists.mp hthere
  obtain ⟨⟨_, s''⟩, hload, hfive⟩ := Outcome.of_holds hload
  obtain rfl := of_decide_eq_true hfive
  obtain ⟨hcons, hall⟩ := booted_consistent hs
  exact ⟨s, s', s'', b, hload, loads_last_stored hcons hall ((run_of_follow hfollow).weaken
    fun _ _ _ hstep => ⟨hstep.1, Option.isSome_iff_exists.mp hstep.2⟩) hthere
    (Outcome.toOption_ok hpcb) (mastersIn_of_check hmasters) hresolve hload⟩

end MemoryOp

end VirtualMemory

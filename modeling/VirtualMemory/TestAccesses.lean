import VirtualMemory.TestProgram
import VirtualMemory.CallEffects
import VirtualMemory.Protection

/-!
# Accesses of the test

What a thread of the test relies on in the kernel is said for one process: its id, its master
table, the rights of its pages and their bytes. A step that works on another process spares all
of it. On a page of its own that it has the rights to, a thread gains access unless the kernel
halts, and reads or writes the byte that it asked for.
-/

namespace VirtualMemory

open KernelSystem FlatMemory

namespace KernelSystem

/-- A process with an id that `access` finds it by. -/
structure HasId (s : KernelSystem) (h pid : Nat) : Prop where
  number : s.getProcessId h = .ok pid
  low : pid < ssegStartInd
  slot : s.pcbVec.atIndex pid = .ok (some h)

/-- An address in a private segment whose rights allow a kind of access. -/
def Allows (s : KernelSystem) (h address : Nat) (type : AccessType) : Prop :=
  ∃ e, s.descriptor (pageOf h address) = some e ∧ e.getInseg = true ∧ e.getShared = false ∧
    accessIsOk type.code e.getAccess = true

theorem HasId.accessPcb {s : KernelSystem} {h pid : Nat} (hid : s.HasId h pid) :
    s.accessPcb pid = .ok h := by
  rw [KernelSystem.accessPcb, if_pos hid.low, hid.slot]
  rfl

theorem HasId.process {s : KernelSystem} {h pid : Nat} (hid : s.HasId h pid) :
    ∃ b, s.registry.process h = some (pid, b) := by
  obtain ⟨p, hp, hpid⟩ := Outcome.bind_ok hid.number
  rw [pcb_eq_ok] at hp
  cases hpid
  exact ⟨p.sscb, s.registry_process hp⟩

/-- A process that is listed is found by its id. -/
theorem hasId_of_process {s : KernelSystem} {h pid : Nat} {b : Option Nat}
    (hlisted : s.registry.Listed) (hprocess : s.registry.process h = some (pid, b))
    (hlow : pid < ssegStartInd) : s.HasId h pid := by
  obtain ⟨p, hp, hrest⟩ := Option.map_eq_some_iff.mp hprocess
  have hpid : p.pid = pid := (Prod.mk.inj hrest).1
  obtain ⟨free, hslots⟩ := hlisted.slots
  refine ⟨?_, hlow, hslots.atIndex_ok.mpr (hlisted.pids h pid b hprocess)⟩
  rw [getProcessId, pcb_eq_ok.mpr hp, Outcome.ok_bind, hpid]

/-- Where no object came or went, the ids are what they were. -/
theorem HasId.congr {s s' : KernelSystem} {h pid : Nat} (hid : s.HasId h pid)
    (hregistry : s'.registry = s.registry) : s'.HasId h pid := by
  obtain ⟨p, hp, hpid⟩ := Outcome.bind_ok hid.number
  rw [pcb_eq_ok] at hp
  cases hpid
  have hrest : (s'.pcbs h).map KernelProcess.rest = (s.pcbs h).map KernelProcess.rest :=
    congrFun (congrArg Registry.process hregistry) h
  rw [hp] at hrest
  obtain ⟨p', hp', hsame⟩ := Option.map_eq_some_iff.mp hrest
  have hnumber : p'.pid = p.pid := (Prod.mk.inj hsame).1
  have hvec : s'.pcbVec = s.pcbVec := congrArg Registry.pcbVec hregistry
  refine ⟨?_, hid.low, by rw [hvec]; exact hid.slot⟩
  rw [getProcessId, pcb_eq_ok.mpr hp', Outcome.ok_bind, hnumber]

/-- What a thread relies on for its process `h`, except for some of the bytes, still holds. -/
structure SparesProcess (s : KernelSystem) (h : Nat) (bytes : LByte → Prop)
    (s' : KernelSystem) : Prop where
  hasId : ∀ pid, s.HasId h pid → s'.HasId h pid
  master : s'.HasMaster h
  unnamed : ∀ name n, ¬ s'.IsSegment name n h
  allows : ∀ address type, s.Allows h address type → s'.Allows h address type
  inside : ∀ v, v.proc = h → s'.InSegment v → s.InSegment v
  memory : Keeps (fun c => c.1.proc = h ∧ bytes c) s.memory s'.memory

namespace SparesProcess

variable {levels h : Nat} {s s' s'' : KernelSystem} {bytes : LByte → Prop} {op : MemoryOp}

theorem refl (hmaster : s.HasMaster h) (hunnamed : ∀ name n, ¬ s.IsSegment name n h) :
    s.SparesProcess h bytes s :=
  ⟨fun _ => id, hmaster, hunnamed, fun _ _ => id, fun _ _ => id, fun _ _ _ => id⟩

theorem trans (hfirst : s.SparesProcess h bytes s') (hrest : s'.SparesProcess h bytes s'') :
    s.SparesProcess h bytes s'' where
  hasId pid hpid := hrest.hasId pid (hfirst.hasId pid hpid)
  master := hrest.master
  unnamed := hrest.unnamed
  allows address type hallows := hrest.allows address type (hfirst.allows address type hallows)
  inside v hv hinside := hfirst.inside v hv (hrest.inside v hv hinside)
  memory c b hc hb := hrest.memory c b hc (hfirst.memory c b hc hb)

theorem mono {bytes' : LByte → Prop} (hspares : s.SparesProcess h bytes s')
    (himp : ∀ c, c.1.proc = h → bytes' c → bytes c) : s.SparesProcess h bytes' s' :=
  { hspares with memory := fun c b hc hb => hspares.memory c b ⟨hc.1, himp c hc.1 hc.2⟩ hb }

/-- A step that removes nothing spares the processes that it makes no segment in. -/
theorem of_step (hready : s.Ready) (hmaster : s.HasMaster h)
    (hunnamed : ∀ name n, ¬ s.IsSegment name n h) (hstep : KeepingStep levels s op s')
    (hid : ∀ pid, s.HasId h pid → s'.HasId h pid) (hfills : ¬ op.onRecord.Fills s h)
    (hstores : ∀ c value, c.1.proc = h → bytes c → op.event levels s ≠ .store c value) :
    s.SparesProcess h bytes s' := by
  have hready' := MemoryOp.ready_step hready hstep.1.1 hstep.1.2
  have hmaster' := MemoryOp.hasMaster_step hready hstep.1.1 hstep.2 hmaster
  obtain ⟨g, hinv, hsound⟩ := hready.consistent
  obtain ⟨g', hinv', hsound', hpages⟩ := hstep.1.1.extended hinv hsound hstep.2
  obtain ⟨m, hm⟩ := hinv.hasMaster_iff.mp hmaster
  obtain ⟨m', hm'⟩ := hinv'.hasMaster_iff.mp hmaster'
  have hrights : ∀ v : LPage, v.proc = h → SameRights (g.desc v) (g'.desc v) := by
    rintro v rfl
    obtain ⟨hrights, _⟩ | ⟨_, hnew⟩ := hpages v
    · exact hrights
    · exact absurd hnew hfills
  refine ⟨hid, hmaster', hready.unnamed_step hstep.1.1 hmaster hunnamed, ?_, ?_, ?_⟩
  · rintro address type ⟨e, he, hinseg, hshared, hallowed⟩
    obtain rfl := hinv.desc_of_descriptor hsound (v := pageOf h address) hm he
    have hsame := hrights (pageOf h address) rfl
    have hinseg' := hsame.inseg.trans hinseg
    exact ⟨_, hinv'.descriptor_inseg hsound' (v := pageOf h address) hm' hinseg', hinseg',
      hsame.shared.trans hshared, by rwa [hsame.access]⟩
  · rintro v rfl hinside
    rw [hinv.inSegment_iff hsound hm]
    rw [hinv'.inSegment_iff hsound' hm'] at hinside
    rwa [← (hrights v rfl).inseg]
  · rintro c b ⟨hc, hbyte⟩ hb
    have hevent := (hstep.1.1.memory hready.consistent hready.masters).2
    rw [hevent.keeps hb (MemoryOp.event_ne_remove hstep.2),
      Event.after_of_spared fun value => hstores c value hc hbyte]

end SparesProcess

end KernelSystem

namespace KernelInv

variable {g : Layout} {s s' : KernelSystem} {levels h pid address m : Nat} {type : AccessType}

theorem allows_iff (hinv : KernelInv g noHand noHand s) (hsound : g.Sound)
    (hm : g.place (.master h) = .frame m) :
    s.Allows h address type ↔ (g.desc (pageOf h address)).getInseg = true ∧
      (g.desc (pageOf h address)).getShared = false ∧
      accessIsOk type.code (g.desc (pageOf h address)).getAccess = true := by
  constructor
  · rintro ⟨e, he, hrights⟩
    obtain rfl := hinv.desc_of_descriptor hsound (v := pageOf h address) hm he
    exact hrights
  · intro hrights
    exact ⟨_, hinv.descriptor_inseg hsound (v := pageOf h address) hm hrights.1, hrights⟩

/-- The descriptor that a fault finds has the rights that the page had. -/
theorem faultTable_rights {a : KAddr} (hinv : KernelInv g noHand noHand s) (hsound : g.Sound)
    (hm : g.place (.master h) = .frame m) (htable : s.faultTable h address = .ok (a, s')) :
    SameRights (g.desc (pageOf h address)) (s'.mem a) := by
  obtain ⟨hwork, hlock, _⟩ := hinv.working hsound hm
  simp only [faultTable, hinv.masterTableLock_ok hm, Outcome.ok_bind, hwork.inv.accessPtl1_eq hm,
    deref] at htable
  split at htable
  · cases htable
  · obtain ⟨g₁, f, hwork₁, hpaged, _, hf, rfl, _⟩ := hwork.faultPtl2_ok htable
    rw [hwork₁.inv.mem_pageOf hf]
    exact ((hlock.trans hpaged).pages _ id).sameRights

/-- An access that is refused on a private page evicts no master table. -/
theorem allMasters_refused {status : Status} (hinv : KernelInv g noHand noHand s)
    (hsound : g.Sound) (hall : s.AllMasters) (hm : g.place (.master h) = .frame m)
    (hpcb : s.accessPcb pid = .ok h) (hshared : (g.desc (pageOf h address)).getShared = false)
    (hnot : status ≠ .ok)
    (haccess : s.access levels pid address type false = .ok (status, s')) : s'.AllMasters := by
  have hlocked : ((s.ksLockPage m).pageUnlock m).AllMasters := by
    unfold pageUnlock
    split <;> exact hall
  obtain ⟨d, rfl, hwork, ⟨_, _, rfl⟩ | ⟨f, s₁, hf, hentry, rfl⟩⟩ :=
    hinv.access_ok hsound hm hpcb haccess
  · exact hlocked
  · rwa [hwork.inv.accessEntry_refused hf hshared hnot hentry]

/-- One that is granted evicts none either, and it leads to the page. -/
theorem access_own (hinv : KernelInv g noHand noHand s) (hsound : g.Sound)
    (hmasters : MastersIn levels s h address) (hpcb : s.accessPcb pid = .ok h)
    (hshared : (g.desc (pageOf h address)).getShared = false)
    (haccess : s.access levels pid address type false = .ok (.ok, s')) :
    (s'.AllMasters → s.AllMasters) ∧ ∃ g', KernelInv g' noHand noHand s' ∧ g'.Sound ∧
      Leads g s levels h address (pageOf h address) ∧
      Leads g' s' levels h address (pageOf h address) := by
  obtain ⟨g', hinv', hpassed, hgranted⟩ := hinv.access_passed hsound hmasters hpcb haccess
  obtain ⟨v, hleads, hmarked⟩ := hgranted rfl
  obtain rfl : v = pageOf h address := by
    cases hleads with
    | page => rfl
    | shared _ _ hmapped => cases hmapped.symm.trans hshared
  refine ⟨fun hall x hx hlive => ?_, g', hinv', hpassed.sound hsound, hleads,
    hleads.congr hmarked.place hmarked.ssegVec hmarked.desc_or⟩
  have hlive' : (s'.pcbs x).isSome = true := by
    have hrest := hpassed.objects.pcbs x
    rw [← Option.isSome_map (f := KernelProcess.rest), hrest, Option.isSome_map]
    exact hlive
  have hmaster' := hall x (by rw [hpassed.objects.nextPcb]; exact hx) hlive'
  rw [hinv.hasMaster_iff, ← hmarked.place]
  exact hinv'.hasMaster_iff.mp hmaster'

end KernelInv

namespace KernelSystem.Allows

variable {s : KernelSystem} {h address : Nat} {type : AccessType}

theorem mastersIn (hallows : s.Allows h address type) (hmaster : s.HasMaster h) :
    ∀ levels, MastersIn levels s h address
  | 0 => trivial
  | _ + 1 => by
      obtain ⟨e, he, _, hshared, _⟩ := hallows
      refine ⟨hmaster, fun e' he' hmapped => ?_⟩
      cases he.symm.trans he'
      cases hmapped.symm.trans hshared

theorem faultsIn (hallows : s.Allows h address type) (hcons : s.Consistent)
    (hmaster : s.HasMaster h) : ∀ levels, FaultsIn levels s h address
  | 0 => trivial
  | _ + 1 => by
      obtain ⟨g, hinv, hsound⟩ := hcons
      obtain ⟨m, hm⟩ := hinv.hasMaster_iff.mp hmaster
      obtain ⟨hinseg, hshared, _⟩ := (hinv.allows_iff hsound hm).mp hallows
      refine ⟨hmaster, (hinv.inSegment_iff hsound (v := pageOf h address) hm).mpr hinseg,
        fun a s₁ d htable hmapped => ?_⟩
      rw [(hinv.faultTable_rights hsound hm htable).shared] at hmapped
      cases hmapped.symm.trans hshared

end KernelSystem.Allows

theorem meets_ofKernel {α : Type} {P : α → Prop} {x : Except Halt α} (h : ∀ a, x = .ok a → P a) :
    Outcome.Meets (· = TestHalt.assertion) P (ofKernel x) := by
  cases x with
  | error halt => exact fun heq => by cases heq
  | ok a => exact h a rfl

namespace KernelSystem

/-- Every process, apart from some bytes, finds what it relied on. -/
structure Unseen (s : KernelSystem) (bytes : LByte → Prop) (s' : KernelSystem) : Prop where
  ready : s'.Ready
  registry : s'.registry = s.registry
  spares : ∀ x, s.HasMaster x → (∀ name n, ¬ s.IsSegment name n x) →
    s.SparesProcess x bytes s'

namespace Unseen

variable {levels : Nat} {s s' s'' : KernelSystem} {bytes : LByte → Prop} {op : MemoryOp}

theorem refl (hready : s.Ready) : s.Unseen bytes s := ⟨hready, rfl, fun _ => .refl⟩

theorem trans (hfirst : s.Unseen bytes s') (hrest : s'.Unseen bytes s'') :
    s.Unseen bytes s'' := by
  refine ⟨hrest.ready, hrest.registry.trans hfirst.registry, fun x hmaster hunnamed => ?_⟩
  have hspares := hfirst.spares x hmaster hunnamed
  exact hspares.trans (hrest.spares x hspares.master hspares.unnamed)

theorem mono {bytes' : LByte → Prop} (hunseen : s.Unseen bytes s')
    (himp : ∀ c, bytes' c → bytes c) : s.Unseen bytes' s' :=
  { hunseen with
    spares := fun x hmaster hunnamed =>
      (hunseen.spares x hmaster hunnamed).mono fun c _ => himp c }

/-- Faults and accesses go unseen, and loads and stores but for the byte that is stored to. -/
theorem of_step (hready : s.Ready) (hstep : op.Step levels s s')
    (hrecord : op.onRecord = .access 0 0 .read)
    (hstores : ∀ c value, bytes c → op.event levels s ≠ .store c value) : s.Unseen bytes s' := by
  have hregistry : s'.registry = s.registry := by
    have hregistry := hstep.registry hready.consistent
    rw [hrecord] at hregistry
    exact hregistry
  have hkeeping : KeepingStep levels s op s' := by
    refine ⟨⟨hstep, fun r hr => ?_⟩, fun hremoves => ?_⟩
    · rw [hrecord] at hr
      cases hr
    · rw [hrecord] at hremoves
      exact hremoves
  refine ⟨MemoryOp.ready_step hready hstep hkeeping.1.2, hregistry, fun x hmaster hunnamed =>
    .of_step hready hmaster hunnamed hkeeping (fun pid hid => hid.congr hregistry) ?_
      fun c value _ => hstores c value⟩
  rw [hrecord]
  rintro (⟨r, hr, _⟩ | hmade)
  · cases hr
  · exact absurd hmade (hready.not_madeSince hmaster)

end Unseen

/-- A thread has access when the kernel is at `s'`; it was at `s₁` when it asked for the last
time. -/
structure Gained (levels : Nat) (s : KernelSystem) (h pid address : Nat) (type : AccessType)
    (s₁ s' : KernelSystem) : Prop where
  access : s₁.access levels pid address type false = .ok (.ok, s')
  consistent : s₁.Consistent
  hasId : s₁.HasId h pid
  master : s₁.HasMaster h
  allows : s₁.Allows h address type
  unseen : s'.AllMasters → s.Unseen (fun _ => True) s₁

/-- Where the rights allow it, a thread gains access unless the kernel halts. -/
theorem gainAccess_meets (levels : Nat) {h pid address : Nat} {type : AccessType}
    {s : KernelSystem}
    (hready : s.Ready) (hid : s.HasId h pid) (hmaster : s.HasMaster h)
    (hunnamed : ∀ name n, ¬ s.IsSegment name n h) (hallows : s.Allows h address type) :
    Outcome.Meets (· = TestHalt.assertion)
      (fun s' => ∃ s₁, s.Gained levels h pid address type s₁ s')
      (s.gainAccess levels h address type) := by
  obtain ⟨g, hinv, hsound⟩ := hready.consistent
  obtain ⟨m, hm⟩ := hinv.hasMaster_iff.mp hmaster
  obtain ⟨_, hshared, _⟩ := (hinv.allows_iff hsound hm).mp hallows
  unfold gainAccess
  rw [hid.number, ofKernel_ok, Outcome.ok_bind]
  refine (meets_ofKernel (P := fun r => s.access levels pid address type false = .ok r)
    fun _ => id).bind fun r haccess => ?_
  obtain ⟨success, s₂⟩ := r
  dsimp only
  by_cases hok : success = .ok
  · subst success
    rw [if_pos rfl]
    exact ⟨s, haccess, hready.consistent, hid, hmaster, hallows, fun _ => .refl hready⟩
  · rw [if_neg hok]
    have hunseen : s.Unseen (fun _ => True) s₂ := by
      have hstep : (MemoryOp.paging (.access pid address type)).Step levels s s₂ := by
        refine ⟨fun x hx => ?_, ?_, ?_⟩
        · cases hid.accessPcb.symm.trans hx
          exact hallows.mastersIn hmaster levels
        · simp only [MemoryOp.exec, PagingOp.exec, haccess, Outcome.ok_bind]
        · exact hinv.allMasters_refused hsound hready.masters hm hid.accessPcb hshared hok haccess
      exact .of_step hready hstep rfl fun _ _ _ heq => by cases heq
    have hready₂ := hunseen.ready
    have hspared := hunseen.spares h hmaster hunnamed
    have hid₂ := hspared.hasId pid hid
    have hallows₂ := hspared.allows address type hallows
    obtain ⟨g₂, hinv₂, hsound₂⟩ := hready₂.consistent
    obtain ⟨m₂, hm₂⟩ := hinv₂.hasMaster_iff.mp hspared.master
    obtain ⟨hinseg₂, hshared₂, hallowed₂⟩ := (hinv₂.allows_iff hsound₂ hm₂).mp hallows₂
    refine (meets_ofKernel (P := fun s₁ => s₂.pageFault levels h address = .ok s₁)
      fun _ => id).bind fun s₁ hfault => ?_
    cases levels with
    | zero => cases hfault
    | succ d =>
        obtain ⟨g₁, hinv₁, hm₁, hcarried, hobjects, hfaulted, _⟩ :=
          hinv₂.pageFault_inv hsound₂ hm₂ hinseg₂ hshared₂ hfault
        have hsound₁ := hcarried.sound hsound₂
        have hid₁ := hid₂.congr hobjects.registry
        have hallowed₁ : accessIsOk type.code (g₁.desc (pageOf h address)).getAccess = true := by
          rwa [hfaulted.rights.access]
        have hinseg₁ := hfaulted.rights.inseg.trans hinseg₂
        obtain ⟨s', haccess'⟩ := hinv₁.access_resident hsound₁ hm₁ hid₁.accessPcb
          hfaulted.resident hinseg₁ d type false
        rw [Bool.false_or, hallowed₁, if_pos rfl] at haccess'
        have hmaster₁ := hinv₁.hasMaster_iff.mpr ⟨m₂, hm₁⟩
        have hallows₁ := (hinv₁.allows_iff hsound₁ hm₁).mpr
          ⟨hinseg₁, hfaulted.resident.1, hallowed₁⟩
        simp only [hid₁.number, ofKernel_ok, Outcome.ok_bind, haccess', if_true]
        refine Outcome.meets_ok ⟨s₁, haccess', ⟨g₁, hinv₁, hsound₁⟩, hid₁, hmaster₁, hallows₁,
          fun hall => hunseen.trans ?_⟩
        have hall₁ := (hinv₁.access_own hsound₁ (hallows₁.mastersIn hmaster₁ _)
          hid₁.accessPcb hfaulted.resident.1 haccess').1 hall
        have hstep : (MemoryOp.paging (.pageFault h address)).Step (d + 1) s₂ s₁ :=
          ⟨hallows₂.faultsIn hready₂.consistent hspared.master _, hfault, hall₁⟩
        exact .of_step hready₂ hstep rfl fun _ _ _ heq => by cases heq

/-- The byte of a process at an address of its own. -/
def ownByte (h address : Nat) : LByte := (pageOf h address, offsetOf address)

theorem offsetOf_mod (address : Nat) : offsetOf (address % pageSize) = offsetOf address := by
  simp [offsetOf, pageSize]

namespace Gained

variable {levels h pid address : Nat} {type : AccessType} {s s₁ s' : KernelSystem}

/-- With access, `get_pa` gives a place in user space, and a load or a store goes there. -/
theorem place (hgained : s.Gained levels h pid address type s₁ s') :
    s₁.resolve levels h address = some (pageOf h address) ∧
      ∃ f, s'.getPhysicalAddress levels h address = .ok (f, address % pageSize) ∧
        s₁.loadThrough levels pid address type =
          .ok (some ((s'.userspc f).byte (offsetOf address)), s') ∧
        ∀ value, type = .write → s₁.storeThrough levels pid address value =
          .ok (s'.withUser (s'.storeByte f (offsetOf address) value)) := by
  obtain ⟨g, hinv, hsound⟩ := hgained.consistent
  obtain ⟨m, hm⟩ := hinv.hasMaster_iff.mp hgained.master
  obtain ⟨_, hshared, _⟩ := (hinv.allows_iff hsound hm).mp hgained.allows
  have hpcb := hgained.hasId.accessPcb
  obtain ⟨_, g', hinv', hsound', hleads, hleads'⟩ := hinv.access_own hsound
    (hgained.allows.mastersIn hgained.master levels) hpcb hshared hgained.access
  have hpa := hleads'.getPa_eq hinv'
  refine ⟨hleads.resolve_eq hinv hsound, (g'.desc (pageOf h address)).block, ?_, ?_,
    fun value htype => ?_⟩
  · have hlt : (g'.desc (pageOf h address)).block < s'.userspcSize :=
      hinv'.user.frames.typed _ (hinv'.user.frames.owner _ hleads'.resident).1
    have hmod : address % pageSize < pageSize := Nat.mod_lt _ (by decide)
    have hle : (g'.desc (pageOf h address)).block * pageSize + address % pageSize ≤
        s'.userspcSize * pageSize :=
      calc _ ≤ (g'.desc (pageOf h address)).block * pageSize + pageSize := by omega
        _ = ((g'.desc (pageOf h address)).block + 1) * pageSize := (Nat.succ_mul _ _).symm
        _ ≤ s'.userspcSize * pageSize := Nat.mul_le_mul_right _ hlt
    simp only [getPhysicalAddress, hpa, ofKernel_ok, Outcome.ok_bind, checkAddress, if_pos hle]
  · simp only [loadThrough, hpcb, Outcome.ok_bind, hgained.access, if_true, hpa, offsetOf_mod]
  · subst htype
    simp only [storeThrough, hpcb, Outcome.ok_bind, hgained.access, if_true, hpa, offsetOf_mod]

theorem load_step (hgained : s.Gained levels h pid address type s₁ s')
    (hall : s'.AllMasters) : (MemoryOp.load pid address type).Step levels s₁ s' := by
  obtain ⟨_, f, _, hload, _⟩ := hgained.place
  refine ⟨fun x hx => ?_, ?_, hall⟩
  · cases hgained.hasId.accessPcb.symm.trans hx
    exact hgained.allows.mastersIn hgained.master levels
  · simp only [MemoryOp.exec, hload, Outcome.ok_bind]

/-- What is read is the byte that was there when the access was asked for. -/
theorem reads (hgained : s.Gained levels h pid address type s₁ s') (hall : s'.AllMasters)
    (hmaster : s.HasMaster h) (hunnamed : ∀ name n, ¬ s.IsSegment name n h) :
    s.Unseen (fun _ => True) s' ∧ ∀ value b, s₁.loadThrough levels pid address type =
      .ok (some value, s') → s.memory (ownByte h address) = some b → value = b := by
  have hunseen := hgained.unseen hall
  refine ⟨hunseen.trans (.of_step hunseen.ready (hgained.load_step hall) rfl
    fun c value _ heq => ?_), fun value b hload hb => ?_⟩
  · dsimp only [MemoryOp.event] at heq
    split at heq <;> cases heq
  · obtain ⟨g, hinv, hsound⟩ := hgained.consistent
    have hthere := (hunseen.spares h hmaster hunnamed).memory _ b ⟨rfl, trivial⟩ hb
    have hread := MemoryOp.memory_of_load hinv hsound hgained.hasId.accessPcb
      (hgained.allows.mastersIn hgained.master levels) hgained.place.1 hload
    exact Option.some.inj (hread.symm.trans hthere)

/-- What is written is there afterwards, and every other byte is as it was. -/
theorem writes {s'' : KernelSystem} {value : BitVec 8}
    (hgained : s.Gained levels h pid address .write s₁ s') (hall : s'.AllMasters)
    (hall' : s''.AllMasters) (hstore : s₁.storeThrough levels pid address value = .ok s'') :
    s.Unseen (· ≠ ownByte h address) s'' ∧ s''.memory (ownByte h address) = some value := by
  have hunseen := hgained.unseen hall
  have hstep : (MemoryOp.paging (.store pid address value)).Step levels s₁ s'' := by
    refine ⟨fun x hx => ?_, hstore, hall'⟩
    cases hgained.hasId.accessPcb.symm.trans hx
    exact hgained.allows.mastersIn hgained.master levels
  have hgranted : s₁.granted levels pid address .write = some (ownByte h address) := by
    simp only [granted, hgained.hasId.accessPcb, hgained.access, hgained.place.1, Option.map_some]
    rfl
  have hevent : (MemoryOp.paging (.store pid address value)).event levels s₁ =
      .store (ownByte h address) value := by
    simp only [MemoryOp.event, hgranted]
  refine ⟨(hunseen.mono fun _ _ => trivial).trans (.of_step hunseen.ready hstep rfl
    fun c value' hne heq => ?_), ?_⟩
  · rw [hevent] at heq
    cases heq
    exact hne rfl
  · have hmemory := (hstep.memory hunseen.ready.consistent hunseen.ready.masters).2
    rw [hevent] at hmemory
    exact hmemory.2.1

end Gained

section DoAccess

variable (levels : Nat) {pid : Nat} {s : KernelSystem} {t : ProcessTest} {e : TestAccess}

/-- A turn of the loop that reads: it fails no assertion, and finds the byte that was there. -/
theorem doAccess_reads (hready : s.Ready) (hid : s.HasId t.process pid)
    (hmaster : s.HasMaster t.process) (hunnamed : ∀ name n, ¬ s.IsSegment name n t.process)
    (hallows : s.Allows t.process e.address e.accessType) (hexpects : t.Expects e)
    (htype : e.accessType = .read ∨ e.accessType = .execute) :
    Outcome.Meets (· = TestHalt.assertion) (fun r => r.2.2 = t ∧ ∃ value, r.1 = some value ∧
      (r.2.1.AllMasters → s.Unseen (fun _ => True) r.2.1 ∧
        ∀ b, s.memory (ownByte t.process e.address) = some b → value = b))
      (s.doAccess levels t e) := by
  obtain ⟨known, hrecorded⟩ := hexpects
  have hmeets := gainAccess_meets levels hready hid hmaster hunnamed hallows
  have hturn : s.doAccess levels t e = (do
      let s ← s.gainAccess levels t.process e.address e.accessType
      let pa ← s.getPhysicalAddress levels t.process e.address
      t.checkValue e.address e.expectedValue
      .ok (some ((s.userspc pa.1).byte (offsetOf pa.2)), s, t)) := by
    unfold doAccess
    obtain htype | htype := htype <;> rw [htype]
  rw [hturn]
  refine hmeets.bind fun s' hgained => ?_
  obtain ⟨s₁, hgained⟩ := hgained
  obtain ⟨_, f, hpa, hload, _⟩ := hgained.place
  rw [hpa, Outcome.ok_bind, t.checkValue_ok hrecorded, Outcome.ok_bind, offsetOf_mod]
  refine Outcome.meets_ok ⟨rfl, _, rfl, fun hall => ?_⟩
  obtain ⟨hunseen, hvalue⟩ := hgained.reads hall hmaster hunnamed
  exact ⟨hunseen, fun b => hvalue _ b hload⟩

/-- A turn that writes. -/
theorem doAccess_writes (hready : s.Ready) (hid : s.HasId t.process pid)
    (hmaster : s.HasMaster t.process) (hunnamed : ∀ name n, ¬ s.IsSegment name n t.process)
    (hallows : s.Allows t.process e.address e.accessType) (hexpects : t.Expects e)
    (htype : e.accessType = .write) :
    Outcome.Meets (· = TestHalt.assertion) (fun r => r.1 = none ∧
      t.Changed e.address (e.expectedValue, true) r.2.2 ∧
      (r.2.1.AllMasters → s.Unseen (· ≠ ownByte t.process e.address) r.2.1 ∧
        r.2.1.memory (ownByte t.process e.address) = some e.expectedValue))
      (s.doAccess levels t e) := by
  obtain ⟨known, hrecorded⟩ := hexpects
  have hmeets := gainAccess_meets levels hready hid hmaster hunnamed hallows
  unfold doAccess
  rw [htype] at hmeets ⊢
  refine hmeets.bind fun s' hgained => ?_
  obtain ⟨s₁, hgained⟩ := hgained
  obtain ⟨_, f, hpa, _, hstore⟩ := hgained.place
  obtain ⟨t', hmark, hchanged⟩ := t.markDirty_ok hrecorded
  rw [hpa, Outcome.ok_bind]
  dsimp only
  rw [hmark, Outcome.ok_bind, offsetOf_mod]
  exact Outcome.meets_ok ⟨rfl, hchanged, fun hall =>
    hgained.writes (show s'.AllMasters from hall) hall (hstore _ rfl)⟩

end DoAccess

end KernelSystem

end VirtualMemory

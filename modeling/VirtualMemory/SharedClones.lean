import VirtualMemory.SharedMemory
import VirtualMemory.Snapshots

/-!
# Clones share the mappings of their source

A clone has its private pages to itself, but its mappings are mappings of the same segments: what
it stores there is read by its source, and the other way around.
-/

namespace VirtualMemory

open Function UserSpace KernelSystem PageTableL2Entry FlatMemory

/-- The same range of another process. -/
def Mapping.inProcess (m : Mapping) (h : Nat) : Mapping := { m with proc := h }

variable {levels : Nat} {name : String} {m m₁ m₂ : Mapping} {s s₁ : KernelSystem}
  {n dummy h pid : Nat} {e : SegTableEntry}

/-- A mapping that is on record in the segment table is a mapping of the clone, too. -/
theorem Mapping.On.cloned (hon : m.On n s) (hcloned : s.ClonedFrom s₁ m.proc h)
    (he : e ∈ s.occupied m.proc) (hstart : e.start * pageSize = m.startAddr)
    (hsize : m.size ≤ e.getLength) : (m.inProcess h).On n s₁ := by
  refine ⟨hon.aligned, hon.size_le, fun offset hoffset => ?_⟩
  have hi : offset / pageSize < e.getLength :=
    Nat.lt_of_lt_of_le (Nat.div_lt_of_lt_mul (by rwa [Nat.mul_comm])) hsize
  have hpage : ∀ m' : Mapping, m'.startAddr = m.startAddr →
      entryPage e m'.proc (offset / pageSize) = m'.page offset := by
    intro m' haddr
    rw [entryPage, hstart, ← haddr]
    exact m'.page_eq (haddr ▸ hon.aligned) offset
  obtain ⟨d, d', hd, hd', hrights, _, hsame⟩ := (hcloned.pages e he _ hi).descriptors
  rw [hpage m rfl] at hd
  obtain ⟨d₀, hd₀, hinseg, hshared, hind, hblock⟩ := hon.pages offset hoffset
  cases hd.symm.trans hd₀
  obtain ⟨hblock', hind'⟩ := hsame hshared
  refine ⟨d', ?_, hrights.inseg.trans hinseg, hrights.shared.trans hshared, ?_, ?_⟩
  · rw [← hpage (m.inProcess h) rfl]
    exact hd'
  · rw [hind', hind]
  · rw [hblock', hblock]

/-- After a process was cloned, it and its clone have the same mappings. -/
theorem KeepingStep.clone_on (hready : s.Ready) (hsegment : s.IsSegment name n dummy)
    (hon : m.On n s) (he : e ∈ s.occupied m.proc) (hstart : e.start * pageSize = m.startAddr)
    (hsize : m.size ≤ e.getLength) (hpid : s.pcbVec.atIndex pid = .ok (some m.proc))
    (hclone : s.cloneProcess pid = .ok (h, s₁))
    (hstep : KeepingStep levels s (.call (.cloneProcess pid)) s₁) :
    s₁.Ready ∧ s₁.IsSegment name n dummy ∧ m.On n s₁ ∧ (m.inProcess h).On n s₁ := by
  have horderly : (KernelOp.cloneProcess pid).Orderly levels s := hstep.1.1.proceeds
  have hmaster : s.HasMaster m.proc := horderly.masters m.proc (by
    simp [KernelOp.worksOn, KernelOp.subject, hpid, Except.toOption])
  have hcloned := cloneProcess_cloned hready.consistent hready.masters hpid hmaster
    (horderly.order m.proc hpid) hclone hstep.1.1.masters
  obtain ⟨hready₁, hsegment₁, hkept⟩ :=
    KeepingStep.keeps_of_run (.cons hstep (.nil s₁)) hready hsegment
  exact ⟨hready₁, hsegment₁, hkept m hon, hon.cloned hcloned.2 he hstart hsize⟩

/-- What a process or its clone stores in a mapping that was cloned is what the other one loads
from there, if nothing else is stored there in between. -/
theorem clone_shares_stores {o pid₁ pid₂ : Nat} {type : AccessType} {value loaded : BitVec 8}
    {ops₁ ops₂ : List MemoryOp} {s₂ s₃ s₄ t t' : KernelSystem}
    (hready : s.Ready) (hsegment : s.IsSegment name n dummy) (hon : m.On n s)
    (he : e ∈ s.occupied m.proc) (hstart : e.start * pageSize = m.startAddr)
    (hsize : m.size ≤ e.getLength) (hpid : s.pcbVec.atIndex pid = .ok (some m.proc))
    (hclone : s.cloneProcess pid = .ok (h, s₁))
    (hstep : KeepingStep levels s (.call (.cloneProcess pid)) s₁)
    (hrun₁ : Run (KeepingStep levels) s₁ ops₁ s₂)
    (hm₁ : m₁ = m ∨ m₁ = m.inProcess h) (hm₂ : m₂ = m ∨ m₂ = m.inProcess h)
    (ho : o < m.size * pageSize) (hpcb₁ : s₂.accessPcb pid₁ = .ok m₁.proc)
    (haccess : s₂.access levels pid₁ (m₁.startAddr + o) .write false = .ok (.ok, t))
    (hstore : KeepingStep levels s₂ (.paging (.store pid₁ (m₁.startAddr + o) value)) s₃)
    (hrun₂ : Run (KeepingStep levels) s₃ ops₂ s₄)
    (hspared : ∀ c value', s₂.granted levels pid₁ (m₁.startAddr + o) .write = some c →
      Event.store c value' ∉ MemoryOp.events levels s₃ ops₂)
    (hpcb₂ : s₄.accessPcb pid₂ = .ok m₂.proc)
    (hmasters : MastersIn levels s₄ m₂.proc (m₂.startAddr + o))
    (hloaded : s₄.loadThrough levels pid₂ (m₂.startAddr + o) type = .ok (some loaded, t')) :
    loaded = value := by
  obtain ⟨hready₁, hsegment₁, hon₁, hclone₁⟩ :=
    KeepingStep.clone_on hready hsegment hon he hstart hsize hpid hclone hstep
  obtain ⟨hready₂, hsegment₂, hkept⟩ := KeepingStep.keeps_of_run hrun₁ hready₁ hsegment₁
  have hboth : ∀ {m' : Mapping}, m' = m ∨ m' = m.inProcess h →
      m'.On n s₂ ∧ o < m'.size * pageSize := by
    rintro m' (rfl | rfl)
    · exact ⟨hkept _ hon₁, ho⟩
    · exact ⟨hkept _ hclone₁, ho⟩
  exact (hboth hm₁).1.stores_shared hready₂ hsegment₂ (hboth hm₂).1 (hboth hm₁).2 (hboth hm₂).2
    hpcb₁ haccess hstore hrun₂ hspared hpcb₂ hmasters hloaded

/-- Cloning an intact process is a step that removes nothing. -/
theorem keepingStep_clone {source : Nat} (hpid : s.pcbVec.atIndex pid = .ok (some source))
    (hmaster : s.HasMaster source) (hintact : s.Intact source)
    (hclone : s.cloneProcess pid = .ok (h, s₁)) (hall : s₁.AllMasters) :
    KeepingStep levels s (.call (.cloneProcess pid)) s₁ := by
  refine ⟨⟨⟨⟨fun x hx => ?_, (fun r hr => by cases hr), fun x hx => ?_⟩, ?_, hall⟩,
    fun r hr => by cases hr⟩, id⟩
  · have heq : some source = some x := by
      simpa [KernelOp.worksOn, KernelOp.subject, hpid, Except.toOption] using hx
    cases heq
    exact hmaster
  · cases hpid.symm.trans hx
    exact hintact
  · show (KernelOp.cloneProcess pid).exec levels s = .ok s₁
    simp only [KernelOp.exec, hclone, Outcome.ok_bind]

/-- A process maps a segment, and is cloned. -/
def mapsAndClones : Option (KernelSystem × KernelSystem × KernelSystem × Nat × KernelSystem) :=
  (smallKernel 1 8 8 []).toOption.bind fun start =>
    (MemoryOp.clients 2 [.call .createProcess] start).bind fun s₀ =>
      (firstMapping.connected 2 "s" s₀).bind fun s =>
        (s.cloneProcess 0).toOption.map fun r => (start, s₀, s, r)

/-- The page is evicted and comes back. -/
def evictedForSource : List MemoryOp := [.paging (.evictPage 0), .paging (.pageFault 0 0)]

/-- The clone stores a byte, its page is evicted, and the source loads it. -/
theorem clone_shares_stores_five : ∃ (s t' : KernelSystem) (b : BitVec 8),
    s.loadThrough 2 0 0 .read = .ok (some b, t') ∧ b = 5#8 := by
  have hruns : mapsAndClones.any (fun (start, _, s, h, s₁) =>
      decide (start.userspcSize ≤ 65536 ∧ start.krnlspcSize ≤ 65536) &&
      decide ((s.pcbVec.atIndex 0).toOption = some (some 0)) && decide (s.HasMaster 0) &&
      s.intact 0 && decide (h = 2) && decide s₁.AllMasters &&
      ((s.occupied 0).any fun e => decide (e.start * pageSize = 0 ∧ 1 ≤ e.getLength)) &&
      (MemoryOp.clients 2 [.paging (.pageFault 2 0)] s₁).any fun s₂ =>
        decide ((s₂.accessPcb 2).toOption = some 2) &&
        Outcome.holds (s₂.access 2 2 0 .write false) (fun r => decide (r.1 = .ok)) &&
        (MemoryOp.clients 2 [.paging (.store 2 0 5#8)] s₂).any fun s₃ =>
          decide (MemoryOp.events 2 s₃ evictedForSource = [.quiet, .quiet]) &&
          (MemoryOp.clients 2 evictedForSource s₃).any fun s₄ =>
            decide ((s₄.accessPcb 0).toOption = some 0) && s₄.mastersIn 2 0 0 &&
            Outcome.holds (s₄.loadThrough 2 0 0 .read) fun r => r.1.isSome) = true := by
    decide +kernel
  obtain ⟨⟨start, s₀, s, h, s₁⟩, hmade, hcheck⟩ := (Option.any_eq_true _ _).mp hruns
  simp only [Bool.and_eq_true, decide_eq_true_eq, Option.any_eq_true, List.any_eq_true] at hcheck
  obtain ⟨⟨⟨⟨⟨⟨⟨⟨huser, hkrnl⟩, hpid⟩, hmaster⟩, hintact⟩, rfl⟩, hall⟩, e, he, hstart, hlen⟩,
    s₂, hfault, ⟨hpcb₁, haccess⟩, s₃, hstored, hquiet, s₄, hevicted, ⟨hpcb₂, hmasters⟩,
    hloaded⟩ := hcheck
  simp only [mapsAndClones, Option.bind_eq_some_iff, Option.map_eq_some_iff] at hmade
  obtain ⟨start', hboot, s₀', hclients, s', hconnected, r, hclone, heq⟩ := hmade
  cases heq
  obtain ⟨⟨_, t⟩, haccess, hok⟩ := Outcome.of_holds haccess
  obtain rfl := of_decide_eq_true hok
  obtain ⟨⟨b, t'⟩, hloaded, hb⟩ := Outcome.of_holds hloaded
  obtain ⟨b, rfl⟩ := Option.isSome_iff_exists.mp hb
  have hready₀ : s₀.Ready := (MemoryOp.run_of_clients hclients).invariant Ready
    (fun _ _ _ hready hstep => MemoryOp.ready_step hready hstep.1 hstep.2)
    (ready_of_booted (smallKernel_booted (Outcome.toOption_ok hboot)) huser hkrnl)
  obtain ⟨hready, n, dummy, hsegment, hon⟩ := (Mapping.connects_of_check hconnected).on hready₀
  have hstep : KeepingStep 2 s (.call (.cloneProcess 0)) s₁ := keepingStep_clone
    (Outcome.toOption_ok hpid) hmaster (intact_of_check hintact) (Outcome.toOption_ok hclone) hall
  have hstored' : Run (KeepingStep 2) s₂ [.paging (.store 2 0 5#8)] s₃ :=
    MemoryOp.keeping_of_clients (by decide) hstored
  cases hstored' with
  | cons hstore hdone =>
      cases hdone
      refine ⟨s₄, t', b, hloaded, clone_shares_stores hready hsegment hon he hstart hlen
        (Outcome.toOption_ok hpid) (Outcome.toOption_ok hclone) hstep
        (MemoryOp.keeping_of_clients (by decide) hfault) (.inr rfl) (.inl rfl)
        (show 0 < firstMapping.size * pageSize by decide) (Outcome.toOption_ok hpcb₁) haccess
        hstore (MemoryOp.keeping_of_clients (by decide) hevicted) ?_ (Outcome.toOption_ok hpcb₂)
        (mastersIn_of_check hmasters) hloaded⟩
      intro c value' _ hmem
      simp [hquiet] at hmem

end VirtualMemory

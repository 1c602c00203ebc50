import VirtualMemory.UserInvariant

/-!
# User paging keeps the ledgers

One lemma for each way the kernel changes user paging: a victim is swapped out, a
frame is taken into the caller's hands, a frame in hand becomes a resident page, a
page gives its frame and cluster back, and a descriptor that holds nothing is
rewritten. The operations of the kernel are compositions of these.
-/

namespace VirtualMemory

open Function UserSpace

variable {V D E : Type}
variable {w : PageView V D} {hand : Nat → Prop} {ext : E → Nat → Prop} {s s' : UserSpace D}

theorem dvtAcquireCluster_some {cn : Nat} (h : s.dvtAcquireCluster = some (cn, s')) :
    s.dvt cn = true ∧ s' = s.dvtMark cn false := by
  simp only [dvtAcquireCluster] at h
  cases hfind : (List.range s.dvtBits).find? s.dvt with
  | none => simp [hfind] at h
  | some n =>
      simp only [hfind, Option.some.injEq, Prod.mk.injEq] at h
      obtain ⟨rfl, rfl⟩ := h
      exact ⟨by simpa using List.find?_some hfind, rfl⟩

/-- Writing a page back touches one cluster: the page's own, or a free one that is
then marked as in use. -/
structure WroteBack (s : UserSpace D) (victim : Victim) (cn : Nat) (s' : UserSpace D) :
    Prop where
  state : s' = { s with dvt := s'.dvt, disk := s'.disk }
  others : ∀ c, c ≠ cn → s'.disk c = s.disk c
  cases : (victim.cluster = nullCluster ∧ s.dvt cn = true ∧ s'.dvt = update s.dvt cn false ∧
        s'.disk cn = s.userspc victim.ordinal) ∨
      (victim.cluster = cn ∧ cn ≠ nullCluster ∧ s'.dvt = s.dvt ∧
        (s'.disk cn = s.userspc victim.ordinal ∨ (victim.dirty = false ∧ s'.disk cn = s.disk cn)))

theorem usWriteBack_ok {victim : Victim} {cn : Nat}
    (h : s.usWriteBack victim = .ok (cn, s')) : WroteBack s victim cn s' := by
  unfold usWriteBack at h
  split at h
  · rename_i hnull
    cases hacquire : s.dvtAcquireCluster with
    | none => simp [hacquire] at h
    | some r =>
        obtain ⟨n, t⟩ := r
        simp only [hacquire, Except.ok.injEq, Prod.mk.injEq] at h
        obtain ⟨rfl, rfl⟩ := h
        obtain ⟨hfree, rfl⟩ := dvtAcquireCluster_some hacquire
        refine ⟨rfl, fun c hc => ?_, .inl ⟨hnull, hfree, rfl, ?_⟩⟩
        · simp [diskPut, dvtMark, hc]
        · simp [diskPut, dvtMark]
  · rename_i hcluster
    split at h
    · cases h
      refine ⟨rfl, fun c hc => ?_, .inr ⟨rfl, hcluster, rfl, .inl ?_⟩⟩
      · simp [diskPut, hc]
      · simp [diskPut]
    · rename_i hclean
      cases h
      exact ⟨rfl, fun c _ => rfl, .inr ⟨rfl, hcluster, rfl, .inr ⟨by simpa using hclean, rfl⟩⟩⟩

theorem FrameInv.ordinal_ne (hinv : FrameInv w hand s) {v v' : V}
    (hv : (w.desc v).Resident) (hv' : (w.desc v').Resident) (hne : v' ≠ v) :
    (w.desc v').block ≠ (w.desc v).block := by
  intro heq
  have hsame : FrameHolder.page v' = FrameHolder.page v :=
    hinv.ledger.inj (c := (w.desc v).block) ⟨hv', heq⟩ ⟨hv, rfl⟩
  injection hsame with hsame
  exact hne hsame

/-- The cluster written back to is held by no page but the victim and by nothing
outside: it is the victim's origin, or it was free. -/
theorem WroteBack.cluster_ne {victim : Victim} {cn : Nat} {t : UserSpace D}
    (wrote : WroteBack s victim cn t) (hinv : UserInv w hand ext s) {v : V}
    (hv : (w.desc v).Resident) (hord : victim.ordinal = (w.desc v).block)
    (hcl : victim.cluster = s.ot victim.ordinal) {r : ClusterHolder V E} {c : Nat}
    (hholds : clusterHolds w.desc s.ot ext r c) (hne : r ≠ .page v) : c ≠ cn := by
  rintro rfl
  obtain ⟨_, hfree, _⟩ | ⟨hown, hnull, _⟩ := wrote.cases
  · exact hinv.clusters.ledger.not_free hholds hfree
  · have hvc : clusterHolds w.desc s.ot ext (.page v) c :=
      .inl ⟨hv, by rw [← hord, ← hcl, hown], hnull⟩
    exact hne (hinv.clusters.ledger.inj hholds hvc)

theorem WroteBack.cn_lt {victim : Victim} {cn : Nat} {t : UserSpace D}
    (wrote : WroteBack s victim cn t) (hinv : UserInv w hand ext s) {v : V}
    (hv : (w.desc v).Resident) (hord : victim.ordinal = (w.desc v).block)
    (hcl : victim.cluster = s.ot victim.ordinal) : cn < maxClusters := by
  refine Nat.lt_of_lt_of_le ?_ hinv.clusters.small
  obtain ⟨_, hfree, _⟩ | ⟨hown, hnull, _⟩ := wrote.cases
  · exact hinv.clusters.ledger.free_dom hfree
  · exact hinv.clusters.ledger.holds_dom (r := .page v)
      (.inl ⟨hv, by rw [← hord, ← hcl, hown], hnull⟩)

/-- The page's contents are on the disk once it was written back, or were there. -/
theorem WroteBack.disk_eq {victim : Victim} {cn : Nat} {t : UserSpace D}
    (wrote : WroteBack s victim cn t) (hinv : UserInv w hand ext s) {v : V}
    (hv : (w.desc v).Resident) (hord : victim.ordinal = (w.desc v).block)
    (hcl : victim.cluster = s.ot victim.ordinal)
    (hdirty : s.ot victim.ordinal ≠ nullCluster → victim.dirty = (w.desc v).getDirty) :
    t.disk cn = s.userspc (w.desc v).block := by
  rw [← hord]
  obtain ⟨_, _, _, hdisk⟩ | ⟨hown, hnull, _, hdisk | ⟨hclean, hdisk⟩⟩ := wrote.cases
  · exact hdisk
  · exact hdisk
  · have hot : s.ot (w.desc v).block = cn := by rw [← hord, ← hcl, hown]
    have hne : s.ot (w.desc v).block ≠ nullCluster := by rw [hot]; exact hnull
    rw [hord] at hdirty
    have := hinv.clusters.clean v hv hne ((hdirty hne).symm.trans hclean)
    rw [hdisk, ← hot, this, hord]

section SwapOut

variable [DecidableEq D]

/-- The state after a page's data was written back to `cn` in `t`. -/
def afterSwapOut (t : UserSpace D) (ordinal cn : Nat) (pte : D) : UserSpace D :=
  { t with
    mem := update t.mem pte (swappedOut (t.mem pte) cn)
    usFt := update t.usFt ordinal { t.usFt ordinal with type := .usUnused }
    usEmpty := t.usEmpty ++ [ordinal] }

theorem usSwapOut_ok {victim : Victim} (h : s.usSwapOut victim = .ok s') :
    ∃ cn t pte, WroteBack s victim cn t ∧ (s.usFt victim.ordinal).type = .usUserPage ∧
      (s.usFt victim.ordinal).owner = some pte ∧ s' = afterSwapOut t victim.ordinal cn pte := by
  unfold usSwapOut at h
  obtain ⟨⟨cn, t⟩, hwrite, h⟩ := Outcome.bind_ok h
  have wrote := usWriteBack_ok hwrite
  have hft : t.usFt = s.usFt := by rw [wrote.state]
  simp only at h
  split at h
  · rename_i htype
    split at h
    · cases h
    · rename_i pte howner
      cases h
      rw [hft] at htype howner
      exact ⟨cn, t, pte, wrote, htype, howner, rfl⟩
  · cases h

variable [DecidableEq V] {victim : Victim} {cn : Nat} {t : UserSpace D} {v : V} {a : D}

/-- The frame ledger after a swap-out: the victim's page gave its frame back. -/
theorem frameInv_afterSwapOut (hinv : FrameInv w hand s) (wrote : WroteBack s victim cn t)
    (hv : (w.desc v).Resident) (hord : victim.ordinal = (w.desc v).block)
    (ha : w.addr v = some a) :
    FrameInv (w.put v a (swappedOut (w.desc v) cn)) hand (afterSwapOut t victim.ordinal cn a) := by
  have hlink := hinv.link v a ha
  have hmem : t.mem = s.mem := by rw [wrote.state]
  have hempty : t.usEmpty = s.usEmpty := by rw [wrote.state]
  have hft : t.usFt = s.usFt := by rw [wrote.state]
  have hsize : t.userspcSize = s.userspcSize := by rw [wrote.state]
  have hheld : frameHolds w.desc hand (.page v) (w.desc v).block := ⟨hv, rfl⟩
  have hnot : (w.desc v).block ∉ s.usEmpty := hinv.ledger.not_free hheld
  refine ⟨?_, hsize ▸ hinv.size_le, ?_, ?_, ?_, ?_, ?_⟩
  · intro f hf
    simp only [afterSwapOut, hft, hsize] at hf ⊢
    by_cases hfo : f = victim.ordinal
    · simp [hfo] at hf
    · rw [update_of_ne hfo] at hf
      exact hinv.typed f hf
  · simp only [afterSwapOut, hempty, hord]
    exact List.nodup_append.mpr ⟨hinv.nodup, by simp, by
      intro x hx y hy
      rintro rfl
      exact hnot (by simpa using (by simpa using hy : x = _) ▸ hx)⟩
  · simp only [afterSwapOut, hempty, hsize, hord]
    refine hinv.ledger.give (r := .page v) (c := (w.desc v).block) hheld
      (fun x hx => hx.2.symm) (fun x => by simp) ?_ ?_
    · rintro x ⟨hr, _⟩
      rw [PageView.put_desc_self] at hr
      exact resident_swappedOut _ _ hr
    · rintro (v' | g) x hne
      · have hvv : v' ≠ v := fun heq => hne (by rw [heq])
        simp only [frameHolds, PageView.put_desc_of_ne _ hvv]
      · rfl
  · intro v' hr
    have hvv : v' ≠ v := by
      rintro rfl
      rw [PageView.put_desc_self] at hr
      exact resident_swappedOut _ _ hr
    rw [PageView.put_desc_of_ne _ hvv] at hr ⊢
    rw [PageView.put_addr_of_ne _ hvv]
    have hne := hinv.ordinal_ne hv hr hvv
    simp only [afterSwapOut, hft, hord, update_of_ne hne]
    exact hinv.owner v' hr
  · intro v' b hb
    simp only [afterSwapOut, hmem]
    by_cases hvv : v' = v
    · subst v'
      rw [PageView.put_addr_self] at hb
      cases hb
      simp [hlink]
    · rw [PageView.put_addr_of_ne _ hvv] at hb
      have hba : b ≠ a := fun heq => hvv (hinv.addr_inj v' v a (heq ▸ hb) ha)
      rw [PageView.put_desc_of_ne _ hvv, update_of_ne hba, hinv.link v' b hb]
  · rw [PageView.put_addr_eq ha]
    exact hinv.addr_inj

/-- The cluster ledger after a swap-out: the page holds the cluster it was written to,
its own origin or one taken from the free ones. -/
theorem clusterInv_afterSwapOut (hinv : UserInv w hand ext s) (wrote : WroteBack s victim cn t)
    (hv : (w.desc v).Resident) (hord : victim.ordinal = (w.desc v).block)
    (hcl : victim.cluster = s.ot victim.ordinal) :
    ClusterInv (w.put v a (swappedOut (w.desc v) cn)) ext
      (afterSwapOut t victim.ordinal cn a) := by
  have hot : t.ot = s.ot := by rw [wrote.state]
  have hft : t.usFt = s.usFt := by rw [wrote.state]
  have hsize : t.diskSize = s.diskSize := by rw [wrote.state]
  have husr : t.userspc = s.userspc := by rw [wrote.state]
  have hcn := wrote.cn_lt hinv hv hord hcl
  have hpaged := pagedOut_swappedOut hv (hinv.clusters.shape v) cn
  have hnew : ∀ x, clusterHolds (w.put v a (swappedOut (w.desc v) cn)).desc s.ot ext
      (.page v) x ↔ x = cn := by
    intro x
    simp only [clusterHolds, PageView.put_desc_self, block_swappedOut _ hcn]
    constructor
    · rintro (⟨hr, _⟩ | ⟨_, hx⟩)
      · exact absurd hr (resident_swappedOut _ _)
      · exact hx.symm
    · rintro rfl
      exact .inr ⟨hpaged, rfl⟩
  have hothers : Ledger.Others (.page v) (clusterHolds w.desc s.ot ext)
      (clusterHolds (w.put v a (swappedOut (w.desc v) cn)).desc s.ot ext) := by
    rintro (v' | e) x hne
    · have hvv : v' ≠ v := fun heq => hne (by rw [heq])
      simp only [clusterHolds, PageView.put_desc_of_ne _ hvv]
    · rfl
  have hold : ∀ v', ((w.put v a (swappedOut (w.desc v) cn)).desc v').Resident →
      v' ≠ v ∧ (w.desc v').Resident := by
    intro v' hr
    have hvv : v' ≠ v := by
      rintro rfl
      rw [PageView.put_desc_self] at hr
      exact resident_swappedOut _ _ hr
    rw [PageView.put_desc_of_ne _ hvv] at hr
    exact ⟨hvv, hr⟩
  refine ⟨?_, ?_, ?_, ?_, ?_⟩
  · simp only [afterSwapOut, hot, hsize]
    obtain ⟨hnull, hfree, hdvt, _⟩ | ⟨hown, hnull, hdvt, _⟩ := wrote.cases
    · refine hinv.clusters.ledger.take (r := .page v) hfree ?_ ?_ hnew hothers
      · rintro x (⟨_, hx, hxnull⟩ | ⟨hp, _⟩)
        · exact hxnull (by rw [← hx, ← hord, ← hcl, hnull])
        · exact hp.not_resident hv
      · intro x
        rw [hdvt]
        by_cases hx : x = cn
        · simp [hx]
        · simp [hx]
    · refine hinv.clusters.ledger.congr (fun x => by rw [hdvt]) ?_
      intro r x
      by_cases hr : r = .page v
      · subst r
        rw [hnew]
        have hvc : clusterHolds w.desc s.ot ext (.page v) cn :=
          .inl ⟨hv, by rw [← hord, ← hcl, hown], hnull⟩
        exact ⟨fun hx => hx ▸ hvc, fun hx => clusterHolds_page_unique hx hvc⟩
      · exact hothers r x hr
  · simp only [afterSwapOut, hsize]
    exact hinv.clusters.small
  · intro v'
    by_cases hvv : v' = v
    · subst v'
      rw [PageView.put_desc_self]
      exact fun hr => absurd hr (resident_swappedOut _ _)
    · rw [PageView.put_desc_of_ne _ hvv]
      exact hinv.clusters.shape v'
  · intro v' hr
    obtain ⟨hvv, hr⟩ := hold v' hr
    have hne := hinv.frames.ordinal_ne hv hr hvv
    simp only [PageView.put_desc_of_ne _ hvv, afterSwapOut, hot, hft, hord, update_of_ne hne]
    exact hinv.clusters.agree v' hr
  · intro v' hr
    obtain ⟨hvv, hr⟩ := hold v' hr
    simp only [PageView.put_desc_of_ne _ hvv, afterSwapOut, hot, husr]
    intro hnull hclean
    have hne : s.ot (w.desc v').block ≠ cn :=
      wrote.cluster_ne hinv hv hord hcl (r := .page v') (.inl ⟨hr, rfl, hnull⟩)
        (by simpa using hvv)
    rw [wrote.others _ hne]
    exact hinv.clusters.clean v' hr hnull hclean

theorem paged_afterSwapOut (hinv : UserInv w hand ext s) (wrote : WroteBack s victim cn t)
    (hv : (w.desc v).Resident) (hord : victim.ordinal = (w.desc v).block)
    (hcl : victim.cluster = s.ot victim.ordinal)
    (hdirty : s.ot victim.ordinal ≠ nullCluster → victim.dirty = (w.desc v).getDirty)
    (ha : w.addr v = some a) :
    Paged ext w s (w.put v a (swappedOut (w.desc v) cn))
      (afterSwapOut t victim.ordinal cn a) := by
  have husr : t.userspc = s.userspc := by rw [wrote.state]
  have hcn := wrote.cn_lt hinv hv hord hcl
  refine ⟨PageView.put_addr_eq ha _, ?_, ?_, ?_, ?_, ?_⟩
  · intro v' _
    by_cases hvv : v' = v
    · subst v'
      rw [PageView.put_desc_self]
      refine ⟨.inr ⟨hv, cn, rfl⟩, ?_⟩
      rw [content_resident hv, content_pagedOut (pagedOut_swappedOut hv
        (hinv.clusters.shape v) cn), block_swappedOut _ hcn]
      exact congrArg some (wrote.disk_eq hinv hv hord hcl hdirty)
    · rw [PageView.put_desc_of_ne _ hvv]
      refine ⟨.inl rfl, ?_⟩
      by_cases hr : (w.desc v').Resident
      · rw [content_resident hr, content_resident hr]
        simp only [afterSwapOut, husr]
      · by_cases hp : (w.desc v').PagedOut
        · rw [content_pagedOut hp, content_pagedOut hp]
          have hne := wrote.cluster_ne hinv hv hord hcl (r := .page v') (.inr ⟨hp, rfl⟩)
            (by simpa using hvv)
          exact congrArg some (wrote.others _ hne)
        · rw [content_none hr hp, content_none hr hp]
  · intro b hb
    have hba : b ≠ a := fun heq => hb v (heq ▸ ha)
    simp only [afterSwapOut, update_of_ne hba]
    rw [wrote.state]
  · intro e c hc
    exact wrote.others c (wrote.cluster_ne hinv hv hord hcl (r := .ext e) hc (by simp))
  · simp only [afterSwapOut]
    rw [wrote.state]
  · simp only [afterSwapOut]
    rw [wrote.state]

/-- Swapping out the frame of a resident page, with a dirty bit that is right whenever
the frame has an origin, keeps the ledgers and every page's contents. -/
theorem usSwapOut_inv (hinv : UserInv w hand ext s) (hv : (w.desc v).Resident)
    (hord : victim.ordinal = (w.desc v).block) (hcl : victim.cluster = s.ot victim.ordinal)
    (hdirty : s.ot victim.ordinal ≠ nullCluster → victim.dirty = (w.desc v).getDirty)
    (h : s.usSwapOut victim = .ok s') :
    ∃ cn a, w.addr v = some a ∧ UserInv (w.put v a (swappedOut (w.desc v) cn)) hand ext s' ∧
      Paged ext w s (w.put v a (swappedOut (w.desc v) cn)) s' ∧
      s'.usEmpty = s.usEmpty ++ [victim.ordinal] := by
  obtain ⟨cn, t, pte, wrote, _, howner, rfl⟩ := usSwapOut_ok h
  obtain ⟨_, a, ha, howner'⟩ := hinv.frames.owner v hv
  rw [← hord, howner, Option.some.injEq] at howner'
  subst pte
  refine ⟨cn, a, ha, ⟨frameInv_afterSwapOut hinv.frames wrote hv hord ha,
    clusterInv_afterSwapOut hinv wrote hv hord hcl⟩,
    paged_afterSwapOut hinv wrote hv hord hcl hdirty ha, ?_⟩
  simp only [afterSwapOut]
  rw [wrote.state]

end SwapOut

/-- No frame is in anyone's hands, as between the operations of a sequential run. -/
def noHand : Nat → Prop := fun _ => False

/-- User space before any page holds anything. -/
theorem userInv_start (hnr : ∀ v, ¬ (w.desc v).Resident) (hnp : ∀ v, ¬ (w.desc v).PagedOut)
    (hext : ∀ e c, ¬ ext e c) (hft : ∀ f, (s.usFt f).type ≠ .usUserPage)
    (hsize : s.userspcSize ≤ 65536) (hempty : s.usEmpty = List.range s.userspcSize)
    (hdvt : ∀ c, s.dvt c = true ↔ c < s.diskSize) (hsmall : s.diskSize ≤ maxClusters)
    (hlink : ∀ v a, w.addr v = some a → s.mem a = w.desc v)
    (hinj : ∀ v v' a, w.addr v = some a → w.addr v' = some a → v = v') :
    UserInv w noHand ext s := by
  refine ⟨⟨fun f hf => absurd hf (hft f), hsize, hempty ▸ List.nodup_range, .start ?_ ?_,
    fun v hr => absurd hr (hnr v), hlink, hinj⟩,
    ⟨.start ?_ hdvt, hsmall, fun v hr => absurd hr (hnr v), fun v hr => absurd hr (hnr v),
      fun v hr => absurd hr (hnr v)⟩⟩
  · rintro (v | f) c hholds
    · exact hnr v hholds.1
    · exact hholds.1
  · simp [hempty]
  · rintro (v | e) c hholds
    · exact hholds.elim (fun hr => hnr v hr.1) (fun hp => hnp v hp.1)
    · exact hext e c hholds

theorem rollUser_some {size : Nat} {toIgnore : Option Nat} {dice rest : List Nat} {place : Nat}
    (h : rollUser size toIgnore dice = some (place, rest)) :
    some place ≠ toIgnore ∧ (0 < size → place < size) := by
  induction dice with
  | nil => cases h
  | cons roll dice ih =>
      rw [rollUser] at h
      split at h
      · exact ih h
      · rename_i hne
        cases h
        exact ⟨hne, Nat.mod_lt _⟩

/-- The dirty bit of a victim without a cluster is not consulted. -/
theorem usWriteBack_congr {ordinal cluster : Nat} {dirty dirty' : Bool}
    (hdirty : cluster ≠ nullCluster → dirty' = dirty) :
    s.usWriteBack ⟨ordinal, dirty', cluster⟩ = s.usWriteBack ⟨ordinal, dirty, cluster⟩ := by
  unfold usWriteBack
  split
  · rfl
  · rename_i hcluster
    rw [hdirty hcluster]

/-- A resident page is swapped out alike by the dirty bit of its frame and by that of its
descriptor. -/
theorem usSwapOut_eq_usEvictPage [DecidableEq D] (hinv : UserInv w hand ext s) {v : V}
    (hv : (w.desc v).Resident) :
    s.usSwapOut ⟨(w.desc v).block, (s.usFt (w.desc v).block).getDirty, s.ot (w.desc v).block⟩ =
      s.usEvictPage (w.desc v).block (w.desc v).getDirty := by
  have hwrite : s.usWriteBack
      ⟨(w.desc v).block, (s.usFt (w.desc v).block).getDirty, s.ot (w.desc v).block⟩ =
      s.usWriteBack ⟨(w.desc v).block, (w.desc v).getDirty, s.ot (w.desc v).block⟩ :=
    usWriteBack_congr fun horigin => (hinv.clusters.agree v hv horigin).symm
  unfold usEvictPage usSwapOut
  rw [hwrite]

theorem usGetVictim_record {toIgnore : Option Nat} {victim : Victim}
    (h : s.usGetVictim toIgnore = .ok (victim, s')) :
    victim = ⟨victim.ordinal, (s.usFt victim.ordinal).getDirty, s.ot victim.ordinal⟩ ∧
      s' = { s with dice := s'.dice } := by
  unfold usGetVictim at h
  split at h
  · cases h
  · cases h
    exact ⟨rfl, rfl⟩

theorem FrameInv.of_eq (hinv : FrameInv w hand s) (hft : s'.usFt = s.usFt)
    (hempty : s'.usEmpty = s.usEmpty) (hmem : s'.mem = s.mem)
    (hsize : s'.userspcSize = s.userspcSize) : FrameInv w hand s' := by
  obtain ⟨typed, size_le, nodup, ledger, owner, link, addr_inj⟩ := hinv
  refine ⟨?_, ?_, ?_, ?_, ?_, ?_, addr_inj⟩
  · rwa [hft, hsize]
  · rwa [hsize]
  · rwa [hempty]
  · rwa [hsize, hempty]
  · rwa [hft]
  · rwa [hmem]

theorem ClusterInv.of_eq (hinv : ClusterInv w ext s) (hft : s'.usFt = s.usFt)
    (hot : s'.ot = s.ot) (husr : s'.userspc = s.userspc) (hdvt : s'.dvt = s.dvt)
    (hdisk : s'.disk = s.disk) (hsize : s'.diskSize = s.diskSize) : ClusterInv w ext s' := by
  obtain ⟨ledger, small, shape, agree, clean⟩ := hinv
  refine ⟨?_, ?_, shape, ?_, ?_⟩
  · rwa [hdvt, hot, hsize]
  · rwa [hsize]
  · rwa [hft, hot]
  · rwa [hot, hdisk, husr]

/-- The descriptors of pages that are not resident move to other places, and with them
clusters that are held from outside. -/
theorem UserInv.relocate {E' : Type} {ext' : E' → Nat → Prop} {w' : PageView V D}
    (hinv : UserInv w hand ext s) (hdesc : w'.desc = w.desc)
    (haddr : ∀ v, (w.desc v).Resident → w'.addr v = w.addr v)
    (hlink : ∀ v a, w'.addr v = some a → s'.mem a = w.desc v)
    (hinj : ∀ v v' a, w'.addr v = some a → w'.addr v' = some a → v = v')
    (hstate : s' = { s with mem := s'.mem, dvt := s'.dvt, disk := s'.disk })
    (hledger : Ledger.Exact (· < s.diskSize) (s'.dvt · = true) (clusterHolds w.desc s.ot ext'))
    (hdisk : ∀ v c, clusterHolds w.desc s.ot ext (.page v) c → s'.disk c = s.disk c) :
    UserInv w' hand ext' s' := by
  obtain ⟨frames, clusters⟩ := hinv
  rw [hstate]
  refine ⟨⟨frames.typed, frames.size_le, frames.nodup, ?_, ?_, ?_, hinj⟩,
    ⟨?_, clusters.small, ?_, ?_, ?_⟩⟩
  · rw [hdesc]
    exact frames.ledger
  · intro v hv
    rw [hdesc] at hv ⊢
    rw [haddr v hv]
    exact frames.owner v hv
  · rw [hdesc]
    exact hlink
  · rw [hdesc]
    exact hledger
  · rw [hdesc]
    exact clusters.shape
  · rw [hdesc]
    exact clusters.agree
  · intro v hv hnull hclean
    rw [hdesc] at hv hnull hclean ⊢
    rw [hdisk v _ (.inl ⟨hv, rfl, hnull⟩)]
    exact clusters.clean v hv hnull hclean

theorem frameInv_take (hinv : FrameInv w hand s) {f : Nat} {rest : List Nat}
    (hempty : s.usEmpty = f :: rest) (hand' : Nat → Prop)
    (hhand : ∀ g, hand' g ↔ hand g ∨ g = f) :
    FrameInv w hand' { s with usEmpty := rest } := by
  have hnodup := hinv.nodup
  rw [hempty, List.nodup_cons] at hnodup
  have hmem : f ∈ s.usEmpty := by simp [hempty]
  refine ⟨hinv.typed, hinv.size_le, hnodup.2, ?_, hinv.owner, hinv.link, hinv.addr_inj⟩
  refine hinv.ledger.take (r := .hand f) (c := f) hmem ?_ ?_ ?_ ?_
  · rintro x ⟨hf, rfl⟩
    exact hinv.ledger.not_free (r := .hand f) ⟨hf, rfl⟩ hmem
  · intro x
    simp only [hempty, List.mem_cons]
    constructor
    · intro hx
      exact ⟨.inr hx, fun heq => hnodup.1 (heq ▸ hx)⟩
    · rintro ⟨rfl | hx, hne⟩
      · exact absurd rfl hne
      · exact hx
  · intro x
    simp only [frameHolds, hhand]
    constructor
    · rintro ⟨_, hx⟩
      exact hx.symm
    · rintro rfl
      exact ⟨.inr trivial, rfl⟩
  · rintro (v | g) x hne
    · rfl
    · have hgf : g ≠ f := fun heq => hne (by rw [heq])
      simp only [frameHolds, hhand, hgf, or_false]

variable [DecidableEq D]

/-- The two ways `us_acquire_page` comes by a frame while it holds `mutex_uslst`. -/
theorem usTakePage_cases {toIgnore : Option Nat} {f : Nat}
    (h : s.usTakePage toIgnore = .ok (f, s')) :
    (∃ rest, s.usEmpty = f :: rest ∧ s' = { s with usEmpty := rest }) ∨
    (s.usEmpty = [] ∧ ∃ place dice t rest,
      rollUser s.userspcSize toIgnore s.dice = some (place, dice) ∧
      ({ s with dice := dice } : UserSpace D).usSwapOut
        ⟨place, (s.usFt place).getDirty, s.ot place⟩ = .ok t ∧
      t.usEmpty = f :: rest ∧ s' = { t with usEmpty := rest }) := by
  unfold usTakePage lstGetEmptyPage at h
  cases hempty : s.usEmpty with
  | cons page rest =>
      simp only [hempty, Except.ok.injEq, Prod.mk.injEq] at h
      obtain ⟨rfl, rfl⟩ := h
      exact .inl ⟨rest, rfl, rfl⟩
  | nil =>
      simp only [hempty] at h
      obtain ⟨⟨victim, t₀⟩, hvictim, hrest⟩ := Outcome.bind_ok h
      obtain ⟨t, hswap, hlist⟩ := Outcome.bind_ok hrest
      unfold usGetVictim at hvictim
      cases hroll : rollUser s.userspcSize toIgnore s.dice with
      | none => simp [hroll] at hvictim
      | some r =>
          obtain ⟨place, dice⟩ := r
          simp only [hroll, Except.ok.injEq, Prod.mk.injEq] at hvictim
          obtain ⟨rfl, rfl⟩ := hvictim
          cases ht : t.usEmpty with
          | nil => simp [ht] at hlist
          | cons page rest =>
              simp only [ht, Except.ok.injEq, Prod.mk.injEq] at hlist
              obtain ⟨rfl, rfl⟩ := hlist
              refine .inr ⟨rfl, place, dice, t, rest, rfl, ?_, ht, rfl⟩
              rw [← hempty]
              exact hswap

theorem usSwapOut_userspc {victim : Victim} (h : s.usSwapOut victim = .ok s') :
    s'.userspc = s.userspc ∧ s'.ot = s.ot := by
  obtain ⟨cn, t, pte, wrote, _, _, rfl⟩ := usSwapOut_ok h
  constructor <;> · simp only [afterSwapOut]; rw [wrote.state]

/-- With nothing in hand, a frame is taken from the free list or from a resident page,
which is then paged out; the frame to ignore is not the one. -/
theorem usTakePage_inv [DecidableEq V] (hinv : UserInv w noHand ext s)
    {toIgnore : Option Nat} {f : Nat} (h : s.usTakePage toIgnore = .ok (f, s')) :
    ∃ w', UserInv w' (· = f) ext s' ∧ Paged ext w s w' s' ∧
      s'.userspc = s.userspc ∧ s'.ot = s.ot ∧
      ∀ v, (w.desc v).Resident → toIgnore = some (w.desc v).block → w'.desc v = w.desc v := by
  obtain ⟨rest, hempty, rfl⟩ | ⟨hempty, place, dice, t, rest, hroll, hswap, ht, rfl⟩ :=
    usTakePage_cases h
  · refine ⟨w, ⟨frameInv_take hinv.frames hempty _ (by simp [noHand]),
      hinv.clusters.of_eq rfl rfl rfl rfl rfl rfl⟩,
      ⟨rfl, fun v _ => ⟨.inl rfl, rfl⟩, fun _ _ => rfl, fun _ _ _ => rfl, rfl, rfl⟩, rfl, rfl,
      fun _ _ _ => rfl⟩
  · obtain ⟨hignore, -⟩ := rollUser_some hroll
    obtain ⟨_, _, _, _, htype, _, _⟩ := usSwapOut_ok hswap
    have hplace : place < s.userspcSize := hinv.frames.typed place htype
    have hcovered : ∃ r, frameHolds w.desc noHand r place :=
      hinv.frames.ledger.covered hplace (by simp [hempty])
    obtain ⟨v | g, hholds⟩ := hcovered
    · obtain ⟨hv, hblock⟩ := hholds
      have hagree : s.ot place ≠ nullCluster →
          (s.usFt place).getDirty = (w.desc v).getDirty := by
        intro hot
        rw [← hblock] at hot ⊢
        exact (hinv.clusters.agree v hv hot).symm
      have hdiced : UserInv w noHand ext { s with dice := dice } :=
        ⟨hinv.frames.of_eq rfl rfl rfl rfl, hinv.clusters.of_eq rfl rfl rfl rfl rfl rfl⟩
      obtain ⟨husr, hot⟩ := usSwapOut_userspc hswap
      obtain ⟨cn, a, _, hinv', hpaged, hfree⟩ :=
        usSwapOut_inv hdiced hv hblock.symm rfl hagree hswap
      refine ⟨_, ⟨frameInv_take hinv'.frames ht _ (by simp [noHand]),
        hinv'.clusters.of_eq rfl rfl rfl rfl rfl rfl⟩,
        ⟨hpaged.addr, fun v _ => hpaged.kept v, hpaged.mem,
          hpaged.disk, hpaged.userspcSize, hpaged.diskSize⟩, husr, hot, ?_⟩
      intro v' hv' hign
      refine PageView.put_desc_of_ne _ ?_ _ _
      rintro rfl
      exact hignore (by rw [hign, hblock])
    · exact absurd hholds.1 id

omit [DecidableEq D] in
theorem usWriteBack_error {victim : Victim} {halt : Halt}
    (h : s.usWriteBack victim = .error halt) : halt = .diskFullUs := by
  unfold usWriteBack at h
  split at h
  · split at h
    · cases h
      rfl
    · cases h
  · split at h <;> cases h

/-- Swapping out a resident page's frame stops only for want of a cluster. -/
theorem usSwapOut_error (hinv : FrameInv w hand s) {v : V} (hv : (w.desc v).Resident)
    {victim : Victim} (hord : victim.ordinal = (w.desc v).block) {halt : Halt}
    (h : s.usSwapOut victim = .error halt) : halt = .diskFullUs := by
  obtain ⟨htype, a, _, howner⟩ := hinv.owner v hv
  unfold usSwapOut at h
  obtain hwrite | ⟨⟨cn, t⟩, hwrite, h⟩ := Outcome.bind_error h
  · exact usWriteBack_error hwrite
  · have hft : t.usFt = s.usFt := by rw [(usWriteBack_ok hwrite).state]
    simp only [hft, hord, htype, howner] at h
    cases h

/-- What is left when nothing goes wrong: the disk is full, or no roll has hit yet, or none
ever will. -/
def Halt.Excused (halt : Halt) : Prop :=
  halt = .diskFullUs ∨ halt = .stillSearching ∨ halt = .noVictim

theorem usTakePage_error [DecidableEq V] (hinv : UserInv w noHand ext s)
    (hpos : 0 < s.userspcSize)
    {toIgnore : Option Nat} {halt : Halt} (h : s.usTakePage toIgnore = .error halt) :
    halt.Excused := by
  unfold usTakePage lstGetEmptyPage at h
  cases hempty : s.usEmpty with
  | cons page rest => simp [hempty] at h
  | nil =>
      simp only [hempty] at h
      obtain hroll | ⟨⟨victim, t₀⟩, hvictim, h⟩ := Outcome.bind_error h
      · unfold usGetVictim at hroll
        split at hroll
        · cases hroll
          split
          · exact .inr (.inl rfl)
          · exact .inr (.inr rfl)
        · cases hroll
      · unfold usGetVictim at hvictim
        cases hroll : rollUser s.userspcSize toIgnore s.dice with
        | none => simp [hroll] at hvictim
        | some r =>
            obtain ⟨place, dice⟩ := r
            simp only [hroll, Except.ok.injEq, Prod.mk.injEq] at hvictim
            obtain ⟨rfl, rfl⟩ := hvictim
            have hplace := (rollUser_some hroll).2 hpos
            obtain ⟨v | g, hholds⟩ : ∃ r, frameHolds w.desc noHand r place :=
              hinv.frames.ledger.covered hplace (by simp [hempty])
            · have hdiced : FrameInv w noHand { s with dice := dice } :=
                hinv.frames.of_eq rfl rfl rfl rfl
              obtain hswap | ⟨t, hswap, hlist⟩ := Outcome.bind_error h
              · exact .inl (usSwapOut_error hdiced hholds.1 hholds.2.symm hswap)
              · obtain ⟨cn, u, pte, _, _, _, rfl⟩ := usSwapOut_ok hswap
                simp only [afterSwapOut] at hlist
                split at hlist
                · cases hlist
                · rename_i hnone
                  split at hnone
                  · rename_i hnil
                    simp at hnil
                  · cases hnone
            · exact absurd hholds.1 id

end VirtualMemory

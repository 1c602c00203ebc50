import VirtualMemory.Constructor
import VirtualMemory.Library.LinkChain
import VirtualMemory.Library.Run

/-!
# The list of free pages

The list whose links lie in the free pages themselves, as it works on addresses. A page that
was taken is its taker's, and may come back with anything where its link was. The list is a
queue of its pages as long as their addresses are those of different pages: the product that
gives the address of a page is an `unsigned long`, and wraps from page `2 ^ 22` on.
-/

namespace VirtualMemory

open Function

/-- Whole pages in a row, in memory and not at the null pointer. -/
structure PageArea (plat : Platform) where
  startAddr : Nat
  size : Nat
  startAddr_pos : 0 < startAddr
  size_pos : 0 < size
  size_lt : size < 2 ^ 32
  fits : startAddr + size * pageSize ≤ plat.addresses

/-- The address of a page. -/
def PageArea.page {plat : Platform} (a : PageArea plat) (i : Nat) : Nat :=
  a.startAddr + i * pageSize

/-- A list with its head, tail and count. -/
structure PageList where
  memory : LinkedMemory
  head : Nat
  tail : Nat
  count : Nat

namespace PageList

def lstGetEmptyPage (l : PageList) : Nat × PageList :=
  if l.count = 0 then (0, l)
  else if l.head ≠ l.tail then
    (l.head, { l with head := l.memory.nextEmpty l.head, count := l.count - 1 })
  else (l.head, { l with head := 0, tail := 0, count := l.count - 1 })

def lstReturnPage (plat : Platform) (l : PageList) (page : Nat) : PageList :=
  if l.head = 0 then
    ⟨l.memory.setNext plat page 0, page, page, l.count + 1⟩
  else
    ⟨(l.memory.setNext plat l.tail page).setNext plat page 0, l.head, page, l.count + 1⟩

/-- The bytes of a page are overwritten; `bytes` is what is read there as a link afterwards. A
word that the page overlaps is a word of the page too. -/
def overwrite (plat : Platform) (l : PageList) (page : Nat) (bytes : Nat → Nat) : PageList :=
  { l with memory :=
    ⟨l.memory.writes ++ [⟨page, pageSize⟩], fun addr =>
      if addr + plat.pointerSize ≤ page ∨ page + pageSize ≤ addr then l.memory.nextEmpty addr
      else bytes addr⟩ }

/-- The list of the pages of an area. -/
def ofArea {plat : Platform} (a : PageArea plat) (m : LinkedMemory) : PageList :=
  let r := m.lstLinkEmptySpace plat a.startAddr a.size
  ⟨r.1, r.2.1, r.2.2, a.size⟩

/-- A call on the list, with the pointer that it returns, or a write to a page. -/
inductive Call where
  | get (result : Nat)
  | giveBack (page : Nat)
  | overwrite (page : Nat) (bytes : Nat → Nat)

/-- A step of the list beside the pages that are taken: only these are given back or written. -/
def Step (plat : Platform) (s : PageList × Finset Nat) (c : Call) (s' : PageList × Finset Nat) :
    Prop :=
  match c with
  | .get result => s.1.lstGetEmptyPage = (result, s'.1) ∧
      s'.2 = if result = 0 then s.2 else insert result s.2
  | .giveBack page => page ∈ s.2 ∧ s' = (s.1.lstReturnPage plat page, s.2.erase page)
  | .overwrite page bytes => page ∈ s.2 ∧ s' = (s.1.overwrite plat page bytes, s.2)

/-- The same step of a queue: the first page is got, and a page given back is the last one. -/
def QueueStep (s : List Nat × Finset Nat) (c : Call) (s' : List Nat × Finset Nat) : Prop :=
  match c with
  | .get result => s.1 = [] ∧ result = 0 ∧ s' = s ∨
      result ≠ 0 ∧ s.1 = result :: s'.1 ∧ s'.2 = insert result s.2
  | .giveBack page => page ∈ s.2 ∧ s' = (s.1 ++ [page], s.2.erase page)
  | .overwrite page _ => page ∈ s.2 ∧ s' = s

/-- Wherever a run of the list leads, it has the queue of the same run. -/
def BehavesAsQueue {plat : Platform} (a : PageArea plat) (m : LinkedMemory) : Prop :=
  ∀ (calls : List Call) (l : PageList) (taken : Finset Nat),
    Run (Step plat) (ofArea a m, ∅) calls (l, taken) →
    ∃ queue, Run QueueStep ((List.range a.size).map a.page, ∅) calls (queue, taken) ∧
      l.count = queue.length ∧ (l.lstGetEmptyPage.1 = 0 ↔ l.count = 0) ∧ queue.Nodup ∧
      (∀ page ∈ queue, page ∉ taken) ∧
      (0 < l.count → l.memory.nextEmpty^[l.count - 1] l.head = l.tail)

section Queue

variable {plat : Platform} {a : PageArea plat} {l : PageList} {pages : List Nat}
  {taken : Finset Nat}

theorem page_ne_zero (a : PageArea plat) (i : Nat) : a.page i ≠ 0 :=
  Nat.ne_of_gt (Nat.lt_of_lt_of_le a.startAddr_pos (Nat.le_add_right ..))

theorem page_injective (a : PageArea plat) : Injective a.page := by
  intro i j heq
  unfold PageArea.page pageSize at heq
  omega

/-- The list contains these pages of the area in turn, and none that was taken. -/
structure Queued (a : PageArea plat) (pages : List Nat) (l : PageList) (taken : Finset Nat) :
    Prop where
  chain : LinkChain a.page 0 (l.memory.nextEmpty ∘ a.page) l.head pages
  nodup : pages.Nodup
  count : l.count = pages.length
  tail : ∀ i, pages.getLast? = some i → l.tail = a.page i
  free : ∀ i ∈ pages, a.page i ∉ taken
  taken : ∀ page ∈ taken, ∃ i, page = a.page i

theorem Queued.head_eq_zero (hl : Queued a pages l taken) : l.head = 0 ↔ pages = [] :=
  hl.chain.eq_nil_iff (page_ne_zero a)

/-- A link is written in a page of the area, and nowhere else. -/
theorem setNext_page (m : LinkedMemory) (i next : Nat) :
    (m.setNext plat (a.page i) next).nextEmpty ∘ a.page =
      update (m.nextEmpty ∘ a.page) i next := by
  funext j
  by_cases hj : j = i
  · simp [hj, LinkedMemory.setNext]
  · simp [LinkedMemory.setNext, update_of_ne hj, update_of_ne ((page_injective a).ne hj)]

theorem Queued.get_nil (hl : Queued a [] l taken) : l.lstGetEmptyPage = (0, l) := by
  rw [lstGetEmptyPage, if_pos (show l.count = 0 from hl.count)]

/-- The first page is got, and the next one comes to the head. -/
theorem Queued.get_cons {i : Nat} (hl : Queued a (i :: pages) l taken) :
    ∃ l', l.lstGetEmptyPage = (a.page i, l') ∧ Queued a pages l' (insert (a.page i) taken) := by
  obtain ⟨hhead, hchain⟩ := hl.chain
  obtain ⟨hi, hnodup⟩ := List.nodup_cons.mp hl.nodup
  have hcount : l.count = pages.length + 1 := hl.count
  have hfree : ∀ j ∈ pages, a.page j ∉ insert (a.page i) taken := by
    intro j hj hmem
    obtain heq | hmem := Finset.mem_insert.mp hmem
    · exact hi (page_injective a heq ▸ hj)
    · exact hl.free j (List.mem_cons_of_mem i hj) hmem
  have htaken : ∀ page ∈ insert (a.page i) taken, ∃ j, page = a.page j := by
    intro page hmem
    obtain rfl | hmem := Finset.mem_insert.mp hmem
    · exact ⟨i, rfl⟩
    · exact hl.taken page hmem
  rw [lstGetEmptyPage, if_neg (by omega)]
  cases pages with
  | nil =>
      have htail : l.tail = a.page i := hl.tail i rfl
      rw [if_neg (by rw [hhead, htail]; exact not_not_intro rfl)]
      exact ⟨_, Prod.ext hhead rfl, rfl, hnodup, by simp [hcount], nofun, hfree, htaken⟩
  | cons j rest =>
      obtain ⟨last, hlast⟩ := Option.isSome_iff_exists.mp
        (List.getLast?_isSome.mpr (List.cons_ne_nil j rest))
      have htail : l.tail = a.page last := hl.tail last (by rw [List.getLast?_cons_cons, hlast])
      have hne : l.head ≠ l.tail := by
        rw [hhead, htail]
        exact (page_injective a).ne (ne_of_mem_of_not_mem (List.mem_of_getLast? hlast) hi).symm
      rw [if_pos hne]
      refine ⟨_, Prod.ext hhead rfl, ?_, hnodup, by simp [hcount], fun k hk => ?_, hfree, htaken⟩
      · exact hhead ▸ hchain
      · rw [hlast] at hk
        exact Option.some.inj hk ▸ htail

/-- A page that was taken goes behind the last one, whatever is in it. -/
theorem Queued.giveBack {i : Nat} (hl : Queued a pages l taken) (hi : a.page i ∈ taken) :
    Queued a (pages ++ [i]) (l.lstReturnPage plat (a.page i)) (taken.erase (a.page i)) := by
  have hnew : i ∉ pages := fun hmem => hl.free i hmem hi
  have hnodup : (pages ++ [i]).Nodup :=
    List.nodup_append.mpr ⟨hl.nodup, List.nodup_singleton i, fun j hj k hk heq => hnew (by
      rwa [← List.mem_singleton.mp hk, ← heq])⟩
  have hcount : l.count + 1 = (pages ++ [i]).length := by simp [hl.count]
  have htail : ∀ k, (pages ++ [i]).getLast? = some k → a.page i = a.page k := by
    intro k hk
    rw [List.getLast?_concat] at hk
    rw [Option.some.inj hk]
  have hfree : ∀ j ∈ pages ++ [i], a.page j ∉ taken.erase (a.page i) := by
    intro j hj hmem
    obtain ⟨hne, hmem⟩ := Finset.mem_erase.mp hmem
    obtain hj | hj := List.mem_append.mp hj
    · exact hl.free j hj hmem
    · exact hne (congrArg a.page (List.mem_singleton.mp hj))
  have htaken : ∀ page ∈ taken.erase (a.page i), ∃ j, page = a.page j :=
    fun page hmem => hl.taken page (Finset.mem_of_mem_erase hmem)
  unfold lstReturnPage
  by_cases hhead : l.head = 0
  · rw [if_pos hhead]
    obtain rfl := hl.head_eq_zero.mp hhead
    refine ⟨⟨rfl, ?_⟩, hnodup, hcount, htail, hfree, htaken⟩
    rw [setNext_page, update_self]
    rfl
  · rw [if_neg hhead]
    obtain rfl | ⟨front, last, rfl⟩ := List.eq_nil_or_concat pages
    · exact absurd (hl.head_eq_zero.mpr rfl) hhead
    rw [List.concat_eq_append] at *
    have hlast : l.tail = a.page last := hl.tail last List.getLast?_concat
    refine ⟨?_, hnodup, hcount, htail, hfree, htaken⟩
    rw [hlast, setNext_page, setNext_page]
    exact hl.chain.append hl.nodup hnew

/-- What its taker writes to a page is nothing to the links of the others. -/
theorem Queued.overwrite {i : Nat} {bytes : Nat → Nat} (hl : Queued a pages l taken)
    (hi : a.page i ∈ taken) : Queued a pages (l.overwrite plat (a.page i) bytes) taken := by
  refine ⟨hl.chain.congr fun j hj => if_pos ?_, hl.nodup, hl.count, hl.tail, hl.free, hl.taken⟩
  have hne : j ≠ i := fun heq => hl.free j hj (heq ▸ hi)
  have hsmall : plat.pointerSize ≤ pageSize := by cases plat <;> decide
  unfold PageArea.page
  unfold pageSize at hsmall ⊢
  omega

/-- Each step of the list is the same step of the queue. -/
theorem Queued.step {c : Call} {l' : PageList} {taken' : Finset Nat} (hl : Queued a pages l taken)
    (hstep : Step plat (l, taken) c (l', taken')) :
    ∃ pages', QueueStep (pages.map a.page, taken) c (pages'.map a.page, taken') ∧
      Queued a pages' l' taken' := by
  cases c with
  | get result =>
      obtain ⟨hget, htaken⟩ := hstep
      dsimp only at hget htaken
      cases pages with
      | nil =>
          cases hl.get_nil.symm.trans hget
          rw [if_pos rfl] at htaken
          subst htaken
          exact ⟨[], .inl ⟨rfl, rfl, rfl⟩, hl⟩
      | cons i rest =>
          obtain ⟨l₁, hget₁, hl₁⟩ := hl.get_cons
          cases hget₁.symm.trans hget
          rw [if_neg (page_ne_zero a i)] at htaken
          subst htaken
          exact ⟨rest, .inr ⟨page_ne_zero a i, rfl, rfl⟩, hl₁⟩
  | giveBack page =>
      obtain ⟨hmem, heq⟩ := hstep
      obtain ⟨i, rfl⟩ := hl.taken page hmem
      cases heq
      exact ⟨pages ++ [i], ⟨hmem, by rw [List.map_append]; rfl⟩, hl.giveBack hmem⟩
  | overwrite page bytes =>
      obtain ⟨hmem, heq⟩ := hstep
      obtain ⟨i, rfl⟩ := hl.taken page hmem
      cases heq
      exact ⟨pages, ⟨hmem, rfl⟩, hl.overwrite hmem⟩

/-- The pages are linked in turn, where no address wraps. -/
theorem queued_ofArea (a : PageArea plat) (m : LinkedMemory) (hsize : a.size ≤ 2 ^ 22) :
    Queued a (List.range a.size) (ofArea a m) ∅ := by
  obtain ⟨n, hn⟩ : ∃ n, a.size = n + 1 := Nat.exists_eq_succ_of_ne_zero (Nat.ne_of_gt a.size_pos)
  obtain ⟨hnext, hlast⟩ := @LinkedMemory.linkPages_next plat m a.startAddr n
    (by omega)
  have harea : ofArea a m = ⟨(LinkedMemory.linkPages plat m a.startAddr n).1, a.startAddr,
      (LinkedMemory.linkPages plat m a.startAddr n).2, a.size⟩ := by
    rw [ofArea, LinkedMemory.lstLinkEmptySpace, hn]
    rfl
  have hwrap : ulong (n * pageSize) = n * pageSize := Nat.mod_eq_of_lt (by
    unfold pageSize
    omega)
  rw [harea, hn, LinkedMemory.linkPages_last, hwrap]
  refine ⟨?_, List.nodup_range, by simp, fun i hi => ?_, fun i _ => Finset.notMem_empty _,
    fun page hmem => absurd hmem (Finset.notMem_empty page)⟩
  · have hzero : a.startAddr = a.page 0 := by simp [PageArea.page]
    have hchain : LinkChain a.page 0
        ((LinkedMemory.linkPages plat m a.startAddr n).1.nextEmpty ∘ a.page) (a.page 0)
        (List.range' 0 (n + 1)) := by
      refine LinkChain.of_range (fun j _ hj => ?_) ?_
      · exact hnext j (by omega)
      · rw [Nat.zero_add]
        exact hlast
    rw [List.range_eq_range']
    exact hzero ▸ hchain
  · rw [List.range_succ, List.getLast?_concat] at hi
    rw [← Option.some.inj hi]
    rfl

theorem Queued.behaves (hl : Queued a pages l taken) :
    l.count = (pages.map a.page).length ∧ (l.lstGetEmptyPage.1 = 0 ↔ l.count = 0) ∧
      (pages.map a.page).Nodup ∧ (∀ page ∈ pages.map a.page, page ∉ taken) ∧
      (0 < l.count → l.memory.nextEmpty^[l.count - 1] l.head = l.tail) := by
  refine ⟨by rw [hl.count, List.length_map], ?_, hl.nodup.map (page_injective a), ?_, ?_⟩
  · cases pages with
    | nil => exact iff_of_true (congrArg Prod.fst hl.get_nil) hl.count
    | cons i rest =>
        obtain ⟨l', hget, _⟩ := hl.get_cons
        refine iff_of_false ?_ ?_
        · rw [hget]
          exact page_ne_zero a i
        · rw [hl.count, List.length_cons]
          exact Nat.succ_ne_zero _
  · intro page hmem
    obtain ⟨i, hi, rfl⟩ := List.mem_map.mp hmem
    exact hl.free i hi
  · intro hpos
    cases pages with
    | nil => exact absurd hl.count (Nat.ne_of_gt hpos)
    | cons i rest =>
        rw [hl.count, List.length_cons, Nat.add_sub_cancel, hl.chain.iterate]
        exact (hl.tail _ (List.getLast?_eq_some_getLast (List.cons_ne_nil i rest))).symm

theorem behavesAsQueue (a : PageArea plat) (m : LinkedMemory) (hsize : a.size ≤ 2 ^ 22) :
    BehavesAsQueue a m := by
  intro calls l taken hrun
  have hforward : ∃ u : List Nat × Finset Nat,
      Run QueueStep ((List.range a.size).map a.page, ∅) calls u ∧
      u.2 = taken ∧ ∃ pages, u.1 = pages.map a.page ∧ Queued a pages l taken := by
    refine hrun.forward (u := ((List.range a.size).map a.page, ∅))
      (fun s u => u.2 = s.2 ∧ ∃ pages, u.1 = pages.map a.page ∧
      Queued a pages s.1 s.2) ?_ ⟨rfl, List.range a.size, rfl, queued_ofArea a m hsize⟩
    rintro ⟨l, taken⟩ c ⟨l', taken'⟩ ⟨_, _⟩ ⟨rfl, pages, rfl, hqueued⟩ hstep
    obtain ⟨pages', hqueue, hqueued'⟩ := hqueued.step hstep
    exact ⟨(pages'.map a.page, taken'), hqueue, rfl, pages', rfl, hqueued'⟩
  obtain ⟨⟨queue, _⟩, hqueue, rfl, pages, rfl, hqueued⟩ := hforward
  exact ⟨_, hqueue, hqueued.behaves⟩

end Queue

section Wrapping

variable {plat : Platform} {a : PageArea plat} {l : PageList}

/-- The pages that are linked: none of them is behind the first `2 ^ 32` bytes. -/
def IsLinked (a : PageArea plat) (page : Nat) : Prop :=
  page = 0 ∨ ∃ i, i < a.size ∧ page = a.startAddr + ulong (i * pageSize)

theorem IsLinked.lt {page : Nat} (hpage : IsLinked a page) : page < a.startAddr + 2 ^ 32 := by
  obtain rfl | ⟨i, _, rfl⟩ := hpage
  · exact Nat.add_pos_right _ (by decide)
  · exact Nat.add_lt_add_left (Nat.mod_lt _ (by decide)) _

/-- Links that lead from linked pages to linked pages. -/
structure Confined (a : PageArea plat) (l : PageList) : Prop where
  head : IsLinked a l.head
  next : ∀ page, page ≠ 0 → IsLinked a page → IsLinked a (l.memory.nextEmpty page)

theorem Confined.get {result : Nat} {l' : PageList} (hl : Confined a l) (hresult : result ≠ 0)
    (hget : l.lstGetEmptyPage = (result, l')) : IsLinked a result ∧ Confined a l' := by
  unfold lstGetEmptyPage at hget
  split at hget
  · cases hget
    exact absurd rfl hresult
  · split at hget
    · cases hget
      exact ⟨hl.head, hl.next _ hresult hl.head, hl.next⟩
    · cases hget
      exact ⟨hl.head, .inl rfl, hl.next⟩

/-- As long as no null pointer is got, the pages that are got are linked ones. -/
theorem Confined.gets {results : List Nat} {taken : Finset Nat} {s : PageList × Finset Nat}
    (hl : Confined a l) (hresults : ∀ result ∈ results, result ≠ 0)
    (hrun : Run (Step plat) (l, taken) (results.map .get) s) :
    ∀ result ∈ results, IsLinked a result := by
  induction results generalizing l taken with
  | nil => exact nofun
  | cons result rest ih =>
      cases hrun with
      | @cons _ s₁ _ _ _ hfirst hrest =>
          obtain ⟨hlinked, hl₁⟩ := hl.get (hresults result List.mem_cons_self) hfirst.1
          intro r hr
          obtain rfl | hr := List.mem_cons.mp hr
          · exact hlinked
          · exact ih hl₁ (fun r hr => hresults r (List.mem_cons_of_mem _ hr)) hrest r hr

variable (plat) in
/-- A page can always be asked for. -/
theorem exists_gets (n : Nat) (s : PageList × Finset Nat) :
    ∃ (results : List Nat) (s' : PageList × Finset Nat), results.length = n ∧
      Run (Step plat) s (results.map .get) s' := by
  induction n generalizing s with
  | zero => exact ⟨[], s, rfl, .nil s⟩
  | succ n ih =>
      obtain ⟨results, s', hlength, hrun⟩ := ih (s.1.lstGetEmptyPage.2,
        if s.1.lstGetEmptyPage.1 = 0 then s.2 else insert s.1.lstGetEmptyPage.1 s.2)
      exact ⟨s.1.lstGetEmptyPage.1 :: results, s', by rw [List.length_cons, hlength],
        .cons ⟨rfl, rfl⟩ hrun⟩

/-- A queue gives its pages in turn. -/
theorem queue_gets {results : List Nat} {u u' : List Nat × Finset Nat}
    (hrun : Run QueueStep u (results.map .get) u') (hlength : results.length ≤ u.1.length) :
    results <+: u.1 := by
  induction results generalizing u with
  | nil => exact List.nil_prefix
  | cons result rest ih =>
      cases hrun with
      | @cons _ u₁ _ _ _ hfirst hrest =>
          obtain ⟨hnil, _⟩ | ⟨_, hcons, _⟩ := hfirst
          · rw [hnil] at hlength
            exact absurd hlength (Nat.not_succ_le_zero _)
          · rw [hcons] at hlength ⊢
            exact List.cons_prefix_cons.mpr ⟨rfl, ih hrest (Nat.le_of_succ_le_succ hlength)⟩

theorem confined_ofArea (a : PageArea plat) (m : LinkedMemory) : Confined a (ofArea a m) := by
  have hlast : a.size - 1 < a.size := Nat.sub_lt a.size_pos Nat.one_pos
  refine ⟨.inr ⟨0, a.size_pos, by simp [ofArea, LinkedMemory.lstLinkEmptySpace, ulong]⟩, ?_⟩
  rintro page hne (rfl | ⟨i, hi, rfl⟩)
  · exact absurd rfl hne
  · obtain hzero | ⟨j, hj, hlink⟩ :=
      LinkedMemory.linkPages_range plat m a.startAddr (a.size - 1) i (Nat.le_sub_one_of_lt hi)
    · exact .inl hzero
    · exact .inr ⟨j, Nat.lt_of_le_of_lt hj hlast, hlink⟩

/-- The page that follows the first `2 ^ 32` bytes is never got. -/
theorem not_behavesAsQueue (a : PageArea plat) (m : LinkedMemory) (hsize : 2 ^ 22 < a.size) :
    ¬ BehavesAsQueue a m := by
  intro hall
  obtain ⟨results, ⟨l, taken⟩, hlength, hrun⟩ := exists_gets plat (2 ^ 22 + 1) (ofArea a m, ∅)
  obtain ⟨queue, hqueue, _⟩ := hall _ l taken hrun
  have hstarts := queue_gets hqueue (by rw [hlength, List.length_map, List.length_range]; omega)
  have hnonzero : ∀ result ∈ results, result ≠ 0 := by
    intro result hresult
    obtain ⟨i, _, rfl⟩ := List.mem_map.mp (hstarts.subset hresult)
    exact page_ne_zero a i
  have hwrapped : results[2 ^ 22]? = some (a.page (2 ^ 22)) := by
    have hin : 2 ^ 22 < results.length := by rw [hlength]; exact Nat.lt_succ_self _
    rw [List.getElem?_eq_getElem hin, hstarts.getElem hin]
    simp
  have hlt := ((confined_ofArea a m).gets hnonzero hrun _ (List.mem_of_getElem? hwrapped)).lt
  unfold PageArea.page pageSize at hlt
  omega

end Wrapping

/-- The list is a queue of all its pages just when their addresses do not wrap. -/
theorem list_is_queue {plat : Platform} (a : PageArea plat) (m : LinkedMemory) :
    BehavesAsQueue a m ↔ a.size ≤ 2 ^ 22 := by
  constructor
  · intro hall
    by_contra hsize
    exact not_behavesAsQueue a m (Nat.not_le.mp hsize) hall
  · exact behavesAsQueue a m

/-- One page more than `2 ^ 32` bytes, which a 64-bit address space has room for. -/
theorem list_not_queue : ¬ ∀ (plat : Platform) (a : PageArea plat) (m : LinkedMemory),
    BehavesAsQueue a m := by
  intro hall
  let a : PageArea .x64 :=
    { startAddr := 1024
      size := 2 ^ 22 + 1
      startAddr_pos := by decide
      size_pos := by decide
      size_lt := by decide
      fits := by decide }
  exact not_behavesAsQueue a ⟨[], fun _ => 0⟩ (Nat.lt_succ_self _) (hall .x64 a _)

section Kernel

variable {plat : Platform} {a : PageArea plat} {l : PageList} {taken : Finset Nat}
  {s s' : KernelSystem} {f : Nat}

/-- The frame that the kernel takes is the page that the list gives. -/
theorem Queued.ksGetEmptyPage (hl : Queued a s.ksEmpty l taken)
    (hget : s.ksGetEmptyPage = some (f, s')) :
    ∃ l', l.lstGetEmptyPage = (a.page f, l') ∧
      Queued a s'.ksEmpty l' (insert (a.page f) taken) := by
  unfold KernelSystem.ksGetEmptyPage at hget
  split at hget
  · cases hget
  · rename_i page rest hempty
    cases hget
    exact Queued.get_cons (hempty ▸ hl)

/-- The kernel evicts a page just when the list has none. -/
theorem Queued.ksGetEmptyPage_none (hl : Queued a s.ksEmpty l taken) :
    s.ksGetEmptyPage = none ↔ l.lstGetEmptyPage.1 = 0 := by
  rw [hl.behaves.2.1, hl.count, List.length_eq_zero_iff, KernelSystem.ksGetEmptyPage]
  split
  · rename_i hempty
    exact iff_of_true rfl hempty
  · rename_i page rest hempty
    exact iff_of_false nofun (hempty ▸ List.cons_ne_nil page rest)

theorem Queued.ksFreePage (hl : Queued a s.ksEmpty l taken) (hf : a.page f ∈ taken) :
    Queued a (s.ksFreePage f).ksEmpty (l.lstReturnPage plat (a.page f))
      (taken.erase (a.page f)) := hl.giveBack hf

end Kernel

end PageList

end VirtualMemory

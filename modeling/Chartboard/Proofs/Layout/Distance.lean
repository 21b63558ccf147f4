import Chartboard.Proofs.Plan.Sound
import Mathlib.Data.Finset.Card
import Mathlib.Data.Finset.Range

namespace Chartboard

namespace Depth

/-- A way along links from one node to another, with the number of its links. -/
inductive Way (links : List (Nat × Nat)) (u : Nat) : Nat → Nat → Prop
  | here : Way links u u 0
  | on {v w n : Nat} (way : Way links u v n) (link : (v, w) ∈ links) : Way links u w (n + 1)

/-- A node to which no link leads. -/
structure IsRoot (count : Nat) (links : List (Nat × Nat)) (v : Nat) : Prop where
  known : v < count
  first : ∀ u, (u, v) ∉ links

/-- There is a way of some length from a root to a node. -/
def Reaches (count : Nat) (links : List (Nat × Nat)) (v n : Nat) : Prop :=
  ∃ root, IsRoot count links root ∧ Way links root v n

/-- The length of a shortest way from a root to a node. -/
structure IsDistance (count : Nat) (links : List (Nat × Nat)) (v d : Nat) : Prop where
  reached : Reaches count links v d
  least : ∀ n, Reaches count links v n → d ≤ n

variable {count depth u v d e n : Nat} {links : List (Nat × Nat)} {found : Array (Option Nat)}

theorem Reaches.on (h : Reaches count links u n) (hl : (u, v) ∈ links) :
    Reaches count links v (n + 1) := by
  obtain ⟨root, hr, hw⟩ := h
  exact ⟨root, hr, hw.on hl⟩

theorem Way.mono {more : List (Nat × Nat)} (hm : links ⊆ more) (h : Way links u v n) :
    Way more u v n := by
  induction h with
  | here => exact .here
  | on _ link ih => exact ih.on (hm link)

/-- Which ways there are from roots is decided by which links there are, in whatever order and
however often they are given. -/
theorem Reaches.congr {other : List (Nat × Nat)} (hl : ∀ link, link ∈ links ↔ link ∈ other)
    (h : Reaches count links v n) : Reaches count other v n := by
  obtain ⟨root, ⟨hk, hf⟩, hw⟩ := h
  exact ⟨root, ⟨hk, fun u hu => hf u ((hl _).2 hu)⟩, hw.mono fun link hm => (hl link).1 hm⟩

theorem Reaches.exists_distance (h : Reaches count links v n) :
    ∃ d ≤ n, IsDistance count links v d := by
  classical
  have hex : ∃ n, Reaches count links v n := ⟨n, h⟩
  exact ⟨Nat.find hex, Nat.find_min' hex h, Nat.find_spec hex, fun _ => Nat.find_min' hex⟩

theorem IsDistance.unique (hd : IsDistance count links v d) (he : IsDistance count links v e) :
    d = e :=
  Nat.le_antisymm (hd.least e he.reached) (he.least d hd.reached)

theorem isDistance_zero : IsDistance count links v 0 ↔ IsRoot count links v := by
  constructor
  · rintro ⟨⟨root, hr, hw⟩, -⟩
    cases hw
    exact hr
  · intro h
    exact ⟨⟨v, h, .here⟩, fun n _ => Nat.zero_le n⟩

/-- A node is one link farther away than the nearest nodes from which a link leads to it. -/
theorem isDistance_succ : IsDistance count links v (d + 1) ↔
    (∃ u, (u, v) ∈ links ∧ IsDistance count links u d) ∧
      ∀ e ≤ d, ¬ IsDistance count links v e := by
  constructor
  · intro h
    refine ⟨?_, ?_⟩
    · obtain ⟨⟨root, hr, hw⟩, hmin⟩ := h
      cases hw with
      | @on u _ _ way link =>
        refine ⟨u, link, ⟨root, hr, way⟩, ?_⟩
        intro n hn
        exact Nat.le_of_succ_le_succ (hmin (n + 1) (hn.on link))
    · intro e he hv
      have := h.unique hv
      omega
  · rintro ⟨⟨u, hl, hu⟩, hnone⟩
    refine ⟨hu.reached.on hl, ?_⟩
    intro n hn
    by_contra hlt
    obtain ⟨e, he, hv⟩ := hn.exists_distance
    exact hnone e (by omega) hv

/-- Below a distance at which there is a node there is one at every distance. -/
theorem IsDistance.exists_nearer (h : IsDistance count links v d) (he : e ≤ d) :
    ∃ u, IsDistance count links u e := by
  induction d, he using Nat.le_induction generalizing v with
  | base => exact ⟨v, h⟩
  | succ d _ ih =>
    obtain ⟨⟨u, -, hu⟩, -⟩ := isDistance_succ.1 h
    exact ih hu

theorem IsDistance.known (hl : ∀ link ∈ links, link.2 < count)
    (h : IsDistance count links v d) : v < count := by
  cases d with
  | zero => exact (isDistance_zero.1 h).known
  | succ d =>
    obtain ⟨⟨u, hu, -⟩, -⟩ := isDistance_succ.1 h
    exact hl (u, v) hu

/-- Nodes at different distances are different, so no node is farther away than there are others. -/
theorem IsDistance.lt_count (hl : ∀ link ∈ links, link.2 < count)
    (h : IsDistance count links v d) : d < count := by
  choose! node hnode using fun e (he : e ∈ Finset.range (d + 1)) =>
    h.exists_nearer (Nat.le_of_lt_succ (Finset.mem_range.1 he))
  have hmaps : ∀ e ∈ Finset.range (d + 1), node e ∈ Finset.range count := fun e he =>
    Finset.mem_range.2 ((hnode e he).known hl)
  have hinj : Set.InjOn node (Finset.range (d + 1)) := by
    intro e he e' he' heq
    have hd := hnode e he
    rw [heq] at hd
    exact hd.unique (hnode e' he')
  have hcard := Finset.card_le_card_of_injOn node hmaps hinj
  rwa [Finset.card_range, Finset.card_range] at hcard

/-- At first exactly the roots have been found. -/
theorem getElem?_roots :
    (roots count links)[v]? = some (some d) ↔ d = 0 ∧ IsRoot count links v := by
  have hfold : ∀ found : Array (Option Nat),
      (links.foldl (fun found link => found.setIfInBounds link.2 none) found)[v]? = some (some d) ↔
        found[v]? = some (some d) ∧ ∀ u, (u, v) ∉ links := by
    induction links with
    | nil => simp
    | cons link links ih =>
      intro found
      have hset : (found.setIfInBounds link.2 none)[v]? = some (some d) ↔
          found[v]? = some (some d) ∧ link.2 ≠ v := by
        rw [Array.getElem?_setIfInBounds]
        split
        · next he =>
          split <;> simp [he]
        · next hne => simp [hne]
      rw [List.foldl_cons, ih, hset]
      grind
  rw [roots, hfold, Array.getElem?_replicate]
  constructor
  · rintro ⟨hv, hn⟩
    split at hv
    · next hlt =>
      cases hv
      exact ⟨rfl, hlt, hn⟩
    · cases hv
  · rintro ⟨rfl, hlt, hn⟩
    exact ⟨if_pos hlt, hn⟩

/-- Following one link finds its end, if it starts at the depth of the round and its end has not been
found before. -/
theorem spread_singleton (link : Nat × Nat) : spread [link] depth found =
    if found[link.1]? = some (some depth) ∧ found[link.2]? = some none then
      found.setIfInBounds link.2 (some (depth + 1))
    else found := by
  simp only [spread, List.foldl_cons, List.foldl_nil]
  split
  · next d hsource htarget => simp [hsource, htarget]
  · next hne =>
    rw [if_neg]
    rintro ⟨hsource, htarget⟩
    exact hne depth hsource htarget

/-- One round finds the nodes to which a link leads from a node at its depth, if they have not been
found before. -/
theorem getElem?_spread : (spread links depth found)[v]? = some (some d) ↔
    found[v]? = some (some d) ∨ found[v]? = some none ∧ d = depth + 1 ∧
      ∃ u, (u, v) ∈ links ∧ found[u]? = some (some depth) := by
  induction links generalizing found with
  | nil => simp [spread]
  | cons link links ih =>
    have hcons : spread (link :: links) depth found =
        spread links depth (spread [link] depth found) := rfl
    rw [hcons, ih, spread_singleton]
    clear ih hcons
    split
    · next hfires =>
      obtain ⟨hsource, htarget⟩ := hfires
      obtain ⟨hlt, -⟩ := Array.getElem?_eq_some_iff.1 htarget
      have hset : ∀ w, (found.setIfInBounds link.2 (some (depth + 1)))[w]? =
          if link.2 = w then some (some (depth + 1)) else found[w]? := by
        intro w
        rw [Array.getElem?_setIfInBounds]
        grind
      simp only [hset]
      grind
    · grind

/-- Exactly the nodes at most at some depth have been found, each at its distance. -/
structure Explored (count : Nat) (links : List (Nat × Nat)) (depth : Nat)
    (found : Array (Option Nat)) : Prop where
  size : found.size = count
  exact : ∀ v d, found[v]? = some (some d) ↔ IsDistance count links v d ∧ d ≤ depth

theorem explored_roots (count : Nat) (links : List (Nat × Nat)) :
    Explored count links 0 (roots count links) := by
  refine ⟨size_roots count links, ?_⟩
  intro v d
  rw [getElem?_roots, Nat.le_zero, ← isDistance_zero]
  constructor
  · rintro ⟨rfl, h⟩
    exact ⟨h, rfl⟩
  · rintro ⟨h, rfl⟩
    exact ⟨rfl, h⟩

/-- Nodes that have not been found are farther away. -/
theorem Explored.getElem?_none (h : Explored count links depth found) :
    found[v]? = some none ↔ v < count ∧ ∀ e ≤ depth, ¬ IsDistance count links v e := by
  constructor
  · intro hv
    refine ⟨h.size ▸ (Array.getElem?_eq_some_iff.1 hv).1, ?_⟩
    intro e he hd
    rw [(h.exact v e).2 ⟨hd, he⟩] at hv
    cases hv
  · rintro ⟨hlt, hnone⟩
    cases hv : found[v]? with
    | none =>
      rw [Array.getElem?_eq_none_iff, h.size] at hv
      omega
    | some depth? =>
      cases depth? with
      | none => rfl
      | some e =>
        obtain ⟨hd, he⟩ := (h.exact v e).1 hv
        exact absurd hd (hnone e he)

/-- One more depth has been explored once the links from the nodes at the last one are followed. -/
theorem Explored.succ {next : Array (Option Nat)} (hl : ∀ link ∈ links, link.2 < count)
    (h : Explored count links depth found) (hs : next.size = found.size)
    (hn : ∀ v d, next[v]? = some (some d) ↔ found[v]? = some (some d) ∨
      found[v]? = some none ∧ d = depth + 1 ∧ ∃ u, (u, v) ∈ links ∧ found[u]? = some (some depth)) :
    Explored count links (depth + 1) next := by
  refine ⟨hs.trans h.size, ?_⟩
  intro v d
  have hnear : ∀ u, found[u]? = some (some depth) ↔ IsDistance count links u depth := fun u => by
    rw [h.exact, and_iff_left (Nat.le_refl depth)]
  rw [hn, h.exact, h.getElem?_none]
  simp only [hnear]
  constructor
  · rintro (⟨hd, hle⟩ | ⟨⟨-, hnone⟩, rfl, hlink⟩)
    · exact ⟨hd, Nat.le_succ_of_le hle⟩
    · exact ⟨isDistance_succ.2 ⟨hlink, hnone⟩, Nat.le_refl _⟩
  · rintro ⟨hd, hle⟩
    rcases Nat.le_or_eq_of_le_succ hle with hle | rfl
    · exact .inl ⟨hd, hle⟩
    · obtain ⟨hlink, hnone⟩ := isDistance_succ.1 hd
      exact .inr ⟨⟨hd.known hl, hnone⟩, rfl, hlink⟩

theorem Explored.spread (hl : ∀ link ∈ links, link.2 < count)
    (h : Explored count links depth found) :
    Explored count links (depth + 1) (spread links depth found) :=
  h.succ hl (size_spread links depth found) fun _ _ => getElem?_spread

/-- If there is no node at the last depth, there is none behind it. -/
theorem Explored.complete (h : Explored count links depth found)
    (hend : ∀ u, ¬ IsDistance count links u depth) :
    found[v]? = some (some d) ↔ IsDistance count links v d := by
  refine (h.exact v d).trans (and_iff_left_of_imp fun hd => ?_)
  by_contra hlt
  obtain ⟨u, hu⟩ := hd.exists_nearer (Nat.le_of_not_le hlt)
  exact hend u hu

/-- The search ends with every node at its distance. The rounds suffice, as no distance is as large
as the number of nodes; and it ends early only if no node is at the depth that it has come to. -/
theorem Explored.search (hl : ∀ link ∈ links, link.2 < count) {rounds : Nat}
    (h : Explored count links depth found) (hr : depth + rounds = count) :
    (Depth.search links rounds depth found).size = count ∧
      ∀ v d, (Depth.search links rounds depth found)[v]? = some (some d) ↔
        IsDistance count links v d := by
  fun_induction Depth.search links rounds depth found with
  | case1 depth found =>
    refine ⟨h.size, fun v d => h.complete fun u hu => ?_⟩
    have := hu.lt_count hl
    omega
  | case2 rounds depth found _ ih => exact ih (h.spread hl) (by omega)
  | case3 rounds depth found hend =>
    refine ⟨h.size, fun v d => h.complete fun u hu => ?_⟩
    have hfound := (h.exact u depth).2 ⟨hu, Nat.le_refl depth⟩
    exact hend (Array.contains_iff_mem.2 (Array.mem_of_getElem? hfound))

end Depth

namespace FlowGraph

/-- There is a way of some length along edges between known nodes from a root to a node. -/
def Reaches (graph : FlowGraph) (v n : Nat) : Prop :=
  Depth.Reaches graph.nodes.length graph.links v n

/-- The length of a shortest way from a root to a node. -/
def IsDistance (graph : FlowGraph) (v d : Nat) : Prop :=
  Depth.IsDistance graph.nodes.length graph.links v d

theorem links_lt {graph : FlowGraph} : ∀ link ∈ graph.links, link.2 < graph.nodes.length := by
  intro link h
  obtain ⟨edge, -, he⟩ := List.mem_filterMap.1 h
  exact (ends?_lt he).2

/-- A node has its distance for its depth, and zero if it has none. -/
theorem getElem?_depths (graph : FlowGraph) (v d : Nat) : graph.depths[v]? = some d ↔
    v < graph.nodes.length ∧ (graph.IsDistance v d ∨ d = 0 ∧ ∀ e, ¬ graph.IsDistance v e) := by
  obtain ⟨hsize, hexact⟩ := (Depth.explored_roots _ _).search graph.links_lt (Nat.zero_add _)
  unfold IsDistance depths
  simp only [← hexact, List.getElem?_map, Array.getElem?_toList, Option.map_eq_some_iff]
  generalize Depth.search graph.links graph.nodes.length 0
    (Depth.roots graph.nodes.length graph.links) = found at hsize
  rw [← hsize]
  cases hv : found[v]? with
  | none =>
    have := Array.getElem?_eq_none_iff.1 hv
    simp
    omega
  | some depth? =>
    have := (Array.getElem?_eq_some_iff.1 hv).1
    cases depth? <;> simp [this, eq_comm]

theorem mem_depths_of_succ {graph : FlowGraph} {d : Nat} (h : d + 1 ∈ graph.depths) :
    d ∈ graph.depths := by
  obtain ⟨v, hv⟩ := List.mem_iff_getElem?.1 h
  rcases ((getElem?_depths graph v _).1 hv).2 with hd | ⟨hz, -⟩
  · obtain ⟨u, hu⟩ := hd.exists_nearer (Nat.le_succ d)
    have hdepth := (getElem?_depths graph u d).2 ⟨hu.known graph.links_lt, .inl hu⟩
    exact List.mem_of_getElem? hdepth
  · exact absurd hz (Nat.succ_ne_zero d)

theorem depths_congr {graph other : FlowGraph} (hn : other.nodes.length = graph.nodes.length)
    (hl : ∀ link, link ∈ graph.links ↔ link ∈ other.links) : other.depths = graph.depths := by
  have hr : ∀ v n, other.Reaches v n ↔ graph.Reaches v n := by
    intro v n
    unfold Reaches
    rw [hn]
    exact ⟨fun h => h.congr fun link => (hl link).symm, fun h => h.congr hl⟩
  have hd : ∀ v d, other.IsDistance v d ↔ graph.IsDistance v d := by
    intro v d
    exact ⟨fun ⟨h, hmin⟩ => ⟨(hr v d).1 h, fun n h => hmin n ((hr v n).2 h)⟩,
      fun ⟨h, hmin⟩ => ⟨(hr v d).2 h, fun n h => hmin n ((hr v n).1 h)⟩⟩
  refine List.ext_getElem? fun v => Option.ext fun d => ?_
  rw [getElem?_depths, getElem?_depths]
  simp only [hn, hd]

theorem depth_le_of_link {graph : FlowGraph} {u v n du dv : Nat} (hl : (u, v) ∈ graph.links)
    (hr : graph.Reaches u n) (hu : graph.depths[u]? = some du) (hv : graph.depths[v]? = some dv) :
    dv ≤ du + 1 := by
  obtain ⟨d, -, hd⟩ := hr.exists_distance
  rcases ((getElem?_depths graph u du).1 hu).2 with hdu | ⟨-, hnone⟩
  · rcases ((getElem?_depths graph v dv).1 hv).2 with hdv | ⟨rfl, -⟩
    · exact hdv.least (du + 1) (hdu.reached.on hl)
    · exact Nat.zero_le _
  · exact absurd hd (hnone d)

end FlowGraph

/-- The depth of a node is the length of a shortest way to it from a root, and zero without a way.
Hence it does not matter in which order edges are given and how often; an edge leads at most one
layer down from a node that is reached; and no depth is left out below another one. -/
theorem depths_are_distances_from_roots (graph : FlowGraph) :
    graph.depths.length = graph.nodes.length ∧
    (∀ v < graph.nodes.length, ∃ d, graph.depths[v]? = some d ∧
      ((graph.Reaches v d ∧ ∀ n, graph.Reaches v n → d ≤ n) ∨
        d = 0 ∧ ∀ n, ¬ graph.Reaches v n)) ∧
    (∀ other : FlowGraph, other.nodes.length = graph.nodes.length →
      (∀ link, link ∈ graph.links ↔ link ∈ other.links) → other.depths = graph.depths) ∧
    (∀ u v n du dv, (u, v) ∈ graph.links → graph.Reaches u n → graph.depths[u]? = some du →
      graph.depths[v]? = some dv → dv ≤ du + 1) ∧
    ∀ d, d + 1 ∈ graph.depths → d ∈ graph.depths := by
  refine ⟨graph.length_depths, ?_, fun other hn hl => FlowGraph.depths_congr hn hl,
    fun u v n du dv hl hr hu hv => FlowGraph.depth_le_of_link hl hr hu hv,
    fun d => FlowGraph.mem_depths_of_succ⟩
  intro v hv
  obtain ⟨d, hd⟩ : ∃ d, graph.depths[v]? = some d :=
    ⟨_, List.getElem?_eq_getElem (graph.length_depths ▸ hv)⟩
  refine ⟨d, hd, ((FlowGraph.getElem?_depths graph v d).1 hd).2.imp ?_ ?_⟩
  · exact fun h => ⟨h.reached, h.least⟩
  · rintro ⟨rfl, hnone⟩
    refine ⟨rfl, fun n hn => ?_⟩
    obtain ⟨e, -, he⟩ := hn.exists_distance
    exact hnone e he

/-- A ring that two edges and a shorter way lead into from a root, with a loop and an edge to
nowhere, and a ring that nothing leads to. -/
def rings : FlowGraph where
  direction := .topToBottom
  nodes := ["root", "a", "b", "c", "x", "y"].map fun id => ⟨id, id, .rectangle, false, none⟩
  edges := [("root", "a"), ("a", "b"), ("b", "c"), ("c", "a"), ("root", "a"), ("b", "b"),
    ("c", "nowhere"), ("root", "c"), ("x", "y"), ("y", "x")].map fun (source, target) =>
      ⟨source, target, none, .solid, .none, .arrow⟩

def ringsAgain : FlowGraph :=
  { rings with edges := rings.edges.reverse.eraseDups }

theorem rings_depths :
    (∃ d, rings.depths[3]? = some d ∧ ((rings.Reaches 3 d ∧ ∀ n, rings.Reaches 3 n → d ≤ n) ∨
      d = 0 ∧ ∀ n, ¬ rings.Reaches 3 n)) ∧
    ringsAgain.depths = rings.depths ∧
    (∃ du dv, rings.depths[1]? = some du ∧ rings.depths[2]? = some dv ∧ dv ≤ du + 1) ∧
    1 ∈ rings.depths := by
  have hdepths : rings.depths = [0, 1, 2, 1, 0, 0] := by decide +kernel
  have hroot : rings.Reaches 1 1 := by
    refine ⟨0, ⟨by decide, ?_⟩, .on .here (by decide +kernel)⟩
    have hlinks : ∀ link ∈ rings.links, link.2 ≠ 0 := by decide +kernel
    exact fun u hu => hlinks _ hu rfl
  have hmem : ∀ link, link ∈ rings.links ↔ link ∈ ringsAgain.links := by
    have hsub : rings.links ⊆ ringsAgain.links ∧ ringsAgain.links ⊆ rings.links := by
      decide +kernel
    exact fun link => ⟨fun h => hsub.1 h, fun h => hsub.2 h⟩
  obtain ⟨-, hnode, hsame, hlink, hlower⟩ := depths_are_distances_from_roots rings
  refine ⟨hnode 3 (by decide), hsame ringsAgain rfl hmem, ⟨1, 2, ?_, ?_, ?_⟩, ?_⟩
  · rw [hdepths]
    rfl
  · rw [hdepths]
    rfl
  · exact hlink 1 2 1 1 2 (by decide +kernel) hroot (by rw [hdepths]; rfl) (by rw [hdepths]; rfl)
  · exact hlower 1 (by rw [hdepths]; decide)

end Chartboard

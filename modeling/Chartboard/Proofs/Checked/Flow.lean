import Chartboard.Proofs.Checked.Link
import Chartboard.Proofs.Text.Cutting

namespace Chartboard.Checked
open Chartboard.Text Chartboard.Flow

/-- The text in the first pair of brackets that opens and closes. Each pair is tried from where the
brackets start. -/
def appearance (id : List Char) (start : Cursor) :
    List Bracket → Option (Option (Appearance × Cursor))
  | [] => some none
  | bracket :: more => do
    match ← start.eat bracket.opener with
    | none => appearance id start more
    | some cur =>
      match ← cur.takeUntil bracket.closer with
      | none => appearance id start more
      | some (text, cur) =>
        let label := unquote (trim text)
        return some (⟨String.ofList (if label.isEmpty then id else label), bracket.shape⟩, cur)

def mention (cur : Cursor) : Option (Option (Mention × Cursor)) := do
  match ← cur.word with
  | none => return none
  | some (id, cur) =>
    if (← cur.peek).any ['[', '(', '{', '>'].contains then
      match ← appearance id cur brackets with
      | none => return none
      | some (appearance, cur) => return some (⟨String.ofList id, some appearance⟩, cur)
    else
      return some (⟨String.ofList id, none⟩, cur)

/-- Goes on with the mentions and the links of a line up to its end. -/
def chain (cur : Cursor) (mentions : List Mention) (links : List Link) :
    Option (Option (List Mention × List Link)) := do
  let cur ← cur.skipBlanks
  if cur.atEnd then
    return some (mentions, links)
  else
    match ← link cur with
    | none => return none
    | some (link, cur) =>
      match ← mention cur with
      | none => return none
      | some (mention, cur) =>
        -- A call written as a term would leave its place in the file in the fixpoint.
        by apply chain; exacts [cur, mentions ++ [mention], links ++ [link]]
partial_fixpoint

def statement (line : List Char) : Option (Option (List Mention × List Link)) := do
  match ← mention ⟨line, 0⟩ with
  | none => return none
  | some (first, cur) => chain cur [first] []

def windows {β : Type} : List β → List (List β)
  | first :: second :: more => [first, second] :: windows (second :: more)
  | _ => []

def edge (pair : List Mention) (link : Link) : Option Edge := do
  let source ← pair[0]?
  let target ← pair[1]?
  return ⟨source.id, target.id, link.label, link.stroke, .none, link.cap⟩

def edges (mentions : List Mention) (links : List Link) : Option (List Edge) :=
  ((windows mentions).zip links).mapM fun (pair, link) => edge pair link

/-- A graph after one more mention. A new node is listed in the group at the given place. -/
def enrol (place : Option Nat) (graph : FlowGraph) (m : Mention) : Option FlowGraph :=
  if graph.nodes.any (·.id == m.id) then
    some (Flow.mention place graph m)
  else
    match place with
    | none => some (Flow.mention none graph m)
    | some g => do
      let group ← graph.groups[g]?
      return { graph with
        nodes := graph.nodes ++ [m.node place]
        groups := graph.groups.set g { group with members := group.members ++ [m.id] } }

def heading (cs : List Char) : Option (List Char × List Char) :=
  match cut ['['] cs with
  | some (id, title) =>
    if title.getLast? = some ']' then do
      let inner ← slice? title 0 (← minus? (byteSize title) 1)
      return (trim id, unquote (trim inner))
    else
      some (cs, unquote cs)
  | none => some (cs, unquote cs)

def addFlowLine (draft : Draft) (raw : List Char) : Option Draft := do
  let line := trimEnd (dropEndWhile (· == ';') raw)
  if sameLetters line "end".toList then
    return { draft with inside := draft.inside.tail }
  else
    match ← stripKeyword "subgraph".toList line with
    | some rest =>
      let (id, title) ← heading rest
      return draft.add (.opening id title)
    | none =>
      match ← statement line with
      | none => return draft
      | some (mentions, links) =>
        let graph ← mentions.foldlM (enrol draft.inside.head?) draft.graph
        return { draft with graph := { graph with edges := graph.edges ++ (← edges mentions links) } }

def flowOfLines (direction : Direction) (lines : List (List Char)) : Option FlowGraph :=
  (lines.foldlM addFlowLine { graph := { direction } }).map Draft.graph

variable {text rest line : List Char}

theorem appearance_leaving (id : List Char) (h : rest <:+ text) (pairs : List Bracket) :
    appearance id (.leaving text rest) pairs =
      some ((pairs.findSome? (·.read? id rest)).map fun (a, after) => (a, .leaving text after)) := by
  induction pairs with
  | nil => rfl
  | cons pair pairs ih =>
    rw [appearance, Cursor.eat_leaving h, List.findSome?_cons, Bracket.read?]
    simp only [Option.bind_eq_bind, Option.bind_some]
    cases ho : after? pair.opener rest with
    | none => exact ih
    | some inner =>
      have hinner : inner <:+ text := by
        refine List.IsSuffix.trans ?_ h
        rw [after?_eq_some_iff.1 ho]
        exact List.suffix_append _ _
      simp only [Option.map_some, Option.bind_some, Cursor.takeUntil_leaving hinner]
      cases hc : cut pair.closer inner with
      | none => exact ih
      | some found => rfl

/-- The first character tells whether brackets open. -/
theorem any_opener (cs : List Char) : (brackets.any fun pair => startsWith pair.opener cs) =
    cs.head?.any ['[', '(', '{', '>'].contains := by
  cases cs with
  | nil => rfl
  | cons c cs =>
    by_cases hc : c ∈ ['[', '(', '{', '>']
    · have hopens : (['[', '(', '{', '>'].contains c) = true := List.contains_iff_mem.2 hc
      simp only [List.mem_cons, List.not_mem_nil, or_false] at hc
      rw [List.head?_cons, Option.any_some, hopens]
      rcases hc with rfl | rfl | rfl | rfl <;> simp [brackets, startsWith, after?]
    · simp only [List.mem_cons, List.not_mem_nil, or_false, not_or] at hc
      obtain ⟨hs, hr, hb, ha⟩ := hc
      simp [brackets, startsWith, after?, hs, hr, hb, ha, Ne.symm hs, Ne.symm hr, Ne.symm hb,
        Ne.symm ha]

theorem mention_leaving (h : rest <:+ text) : mention (.leaving text rest) =
    some ((Mention.read? rest).map fun (m, after) => (m, .leaving text after)) := by
  have hend := (List.dropWhile_suffix (p := isWordChar) (l := rest)).trans h
  rw [mention, Cursor.word_leaving h, Mention.read?]
  simp only [Option.bind_eq_bind, Option.bind_some, any_opener]
  by_cases he : (rest.takeWhile isWordChar).isEmpty = true
  · rw [if_pos he, if_pos he]
    rfl
  · rw [if_neg he, if_neg he]
    simp only [Cursor.peek_leaving hend, Option.bind_some]
    split
    · rw [appearance_leaving _ hend]
      cases brackets.findSome? (·.read? (rest.takeWhile isWordChar) (rest.dropWhile isWordChar)) with
      | none => rfl
      | some found => rfl
    · rfl

/-- A line is read to its end: what is left of it gets shorter with every link. -/
theorem chain_leaving (h : rest <:+ text) (mentions : List Mention) (links : List Link) :
    chain (.leaving text rest) mentions links = some ((hops? rest).map fun hops =>
      (mentions ++ hops.map (·.2), links ++ hops.map (·.1))) := by
  fun_induction hops? rest generalizing mentions links with
  | case1 rest he =>
    have hend := (trimStart_suffix rest).trans h
    rw [chain, Cursor.skipBlanks_leaving h]
    simp [Cursor.atEnd_leaving hend, he]
  | case2 rest he hl =>
    have hend := (trimStart_suffix rest).trans h
    rw [chain, Cursor.skipBlanks_leaving h]
    simp [Cursor.atEnd_leaving hend, he, link_leaving hend, Link.read?_trimStart, hl]
  | case3 rest he l after hl hm =>
    have hend := (trimStart_suffix rest).trans h
    have hafter := (Link.read?_suffix hl).1.trans h
    rw [chain, Cursor.skipBlanks_leaving h]
    simp [Cursor.atEnd_leaving hend, he, link_leaving hend, Link.read?_trimStart, hl,
      mention_leaving hafter, hm]
  | case4 rest he l after hl m behind hm _ _ ih =>
    have hend := (trimStart_suffix rest).trans h
    have hafter := (Link.read?_suffix hl).1.trans h
    have hbehind := (Mention.read?_suffix hm).1.trans hafter
    rw [chain, Cursor.skipBlanks_leaving h]
    simp only [Option.bind_eq_bind, Option.bind_some, Cursor.atEnd_leaving hend, he,
      Bool.false_eq_true, if_false, link_leaving hend, Link.read?_trimStart, hl, Option.map_some,
      mention_leaving hafter, hm, ih hbehind]
    simp [Function.comp_def]

theorem statement_eq (line : List Char) : statement line =
    some ((Statement.read? line).map fun s => (s.mentions, s.hops.map (·.1))) := by
  rw [statement, ← Cursor.leaving_self, mention_leaving (List.suffix_refl line), Statement.read?]
  simp only [Option.bind_eq_bind, Option.bind_some]
  cases hm : Mention.read? line with
  | none => rfl
  | some found =>
    obtain ⟨first, after⟩ := found
    simp only [Option.map_some, Option.bind_some, chain_leaving (Mention.read?_suffix hm).1]
    cases hops? after with
    | none => rfl
    | some hops => rfl

theorem edges_eq (first : Mention) (hops : List (Link × Mention)) :
    edges (first :: hops.map (·.2)) (hops.map (·.1)) = some (edgesFrom first.id hops) := by
  induction hops generalizing first with
  | nil => rfl
  | cons hop hops ih =>
    have hrest := ih hop.2
    rw [edges] at hrest ⊢
    rw [List.map_cons, List.map_cons, windows, List.zip_cons_cons, List.mapM_cons, hrest]
    rfl

theorem length_groups_mention (place : Option Nat) (graph : FlowGraph) (m : Mention) :
    (Flow.mention place graph m).groups.length = graph.groups.length := by
  unfold Flow.mention
  split
  · split <;> rfl
  · cases place <;> simp

theorem enrol_eq {place : Option Nat} {graph : FlowGraph} (m : Mention)
    (hp : ∀ g ∈ place, g < graph.groups.length) :
    enrol place graph m = some (Flow.mention place graph m) := by
  unfold enrol
  split
  · rfl
  · next hn =>
    cases place with
    | none => rfl
    | some g =>
      have hg := hp g rfl
      simp only [List.getElem?_eq_getElem hg, Option.bind_eq_bind, Option.bind_some,
        Option.pure_def, Option.some.injEq]
      simp [Flow.mention, hn, List.modify_eq_set_get _ hg]

theorem foldlM_enrol {place : Option Nat} {graph : FlowGraph} (mentions : List Mention)
    (hp : ∀ g ∈ place, g < graph.groups.length) :
    mentions.foldlM (enrol place) graph = some (mentions.foldl (Flow.mention place) graph) := by
  induction mentions generalizing graph with
  | nil => rfl
  | cons m mentions ih =>
    rw [List.foldlM_cons, enrol_eq m hp, List.foldl_cons]
    exact ih (by rwa [length_groups_mention])

theorem heading_eq (cs : List Char) : heading cs = some (Flow.heading cs) := by
  unfold heading Flow.heading
  cases cut ['['] cs with
  | none => rfl
  | some found =>
    obtain ⟨id, title⟩ := found
    by_cases hl : title.getLast? = some ']'
    · obtain ⟨inner, rfl⟩ := List.getLast?_eq_some_iff.1 hl
      have hone : byteSize [']'] = 1 := by decide
      have hminus : minus? (byteSize (inner ++ [']'])) 1 = some (byteSize inner) := by
        rw [byteSize_append, hone]
        exact minus?_add _ _
      simp only [hl, if_true, hminus, slice?_front, List.dropLast_concat, Option.bind_eq_bind,
        Option.bind_some, Option.pure_def]
    · simp [hl]

theorem addFlowLine_eq {draft : Draft} (h : ∀ g ∈ draft.inside, g < draft.graph.groups.length)
    (raw : List Char) : addFlowLine draft raw = some (draft.add (Line.ofText raw)) := by
  unfold addFlowLine Line.ofText
  simp only
  split
  · rfl
  · rw [stripKeyword_eq]
    cases afterKeyword? "subgraph".toList (trimEnd (dropEndWhile (· == ';') raw)) with
    | some rest => simp [heading_eq]
    | none =>
      simp only [statement_eq, Option.bind_eq_bind, Option.bind_some]
      cases Statement.read? (trimEnd (dropEndWhile (· == ';') raw)) with
      | none => rfl
      | some s =>
        have hgroups := foldlM_enrol s.mentions fun g hg => h g (List.mem_of_mem_head? hg)
        have hedges : edges s.mentions (s.hops.map (·.1)) = some s.edges := edges_eq s.first s.hops
        simp only [Option.map_some, hgroups, hedges, Option.bind_some]
        rfl

theorem flowOfLines_eq (direction : Direction) (lines : List (List Char)) :
    flowOfLines direction lines = some (FlowGraph.ofLines direction lines) := by
  have hfold : ∀ draft : Draft, draft.Coherent → lines.foldlM addFlowLine draft =
      some ((lines.map Line.ofText).foldl Draft.add draft) := by
    induction lines with
    | nil => exact fun _ _ => rfl
    | cons line lines ih =>
      intro draft h
      rw [List.foldlM_cons, addFlowLine_eq h.inside]
      exact ih _ (h.add (Line.ofText_legible line))
  have hempty : Draft.Coherent { graph := { direction } } := FlowGraph.ofLines_coherent direction []
  rw [flowOfLines, hfold _ hempty]
  rfl

end Chartboard.Checked

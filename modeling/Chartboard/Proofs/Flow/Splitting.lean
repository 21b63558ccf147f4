import Chartboard.Proofs.Flow.Joining
import Chartboard.Proofs.Flow.Records

namespace Chartboard
open Chartboard.Text Chartboard.Flow

namespace Flow

variable {cs start rest lead text more place : List Char} {hops : List (Link × Mention)}
  {link : Link} {m : Mention} {s : Statement} {i : Nat}

/-- A link and its mention are read as before, and on from them what is left behind them. -/
theorem hops?_of_prefix (hl : Link.read? (lead ++ (text ++ rest)) = some (link, text ++ rest))
    (hm : Mention.read? (text ++ rest) = some (m, rest)) (hp : more <+: rest) :
    hops? (lead ++ (text ++ more)) = (hops? more).map ((link, m) :: ·) := by
  have hl' : Link.read? (lead ++ (text ++ more)) = some (link, text ++ more) := by
    refine Link.read?_congr hl ?_
    obtain ⟨c, r, rfl⟩ := List.exists_cons_of_ne_nil (Mention.text_ne_nil hm)
    rfl
  rw [hops?_of_link hl', Mention.read?_of_prefix hm hp]
  rfl

theorem hops?_split (h : hops? cs = some hops) (hp : (placesBehind cs)[i]? = some (place, rest)) :
    ∃ before text, cs = before ++ text ++ rest ∧ place = text ++ rest ∧
      (∃ m, (hops.map (·.2))[i]? = some m ∧ Mention.read? place = some (m, rest)) ∧
      hops? (before ++ text) = some (hops.take (i + 1)) ∧
      hops? rest = some (hops.drop (i + 1)) := by
  fun_induction hops? cs generalizing hops i with
  | case1 cs he =>
    rw [placesBehind_of_blank (List.isEmpty_iff.1 he)] at hp
    cases hp
  | case2 => cases h
  | case3 => cases h
  | case4 cs he link place' hl m after hm _ _ ih =>
    obtain ⟨later, hr, rfl⟩ := Option.map_eq_some_iff.1 h
    rw [placesBehind_of_read hl hm] at hp
    obtain ⟨lead, rfl⟩ := (Link.read?_suffix hl).1
    obtain ⟨text, rfl⟩ := (Mention.read?_suffix hm).1
    cases i with
    | zero =>
      cases hp
      refine ⟨lead, text, by simp, rfl, ⟨m, rfl, hm⟩, ?_, hr⟩
      have hlast := hops?_of_prefix hl hm (List.nil_prefix)
      rwa [List.append_nil, hops?_nil] at hlast
    | succ i =>
      obtain ⟨before, last, rfl, hplace, hread, hbefore, hrest⟩ := ih hr hp
      refine ⟨lead ++ (text ++ before), last, by simp, hplace, hread, ?_, hrest⟩
      have hfirst := hops?_of_prefix hl hm (List.prefix_append (before ++ last) rest)
      rw [hbefore] at hfirst
      simpa using hfirst

theorem Statement.read?_split (h : Statement.read? (start ++ rest) = some s)
    (hp : (places (start ++ rest))[i + 1]? = some (place, rest)) :
    ∃ before text, start = before ++ text ∧
      (∃ m, s.mentions[i + 1]? = some m ∧ Mention.read? (text ++ rest) = some (m, rest)) ∧
      Statement.read? start = some ⟨s.first, s.hops.take (i + 1)⟩ ∧
      hops? rest = some (s.hops.drop (i + 1)) := by
  obtain ⟨behind, hm, hr⟩ := Statement.read?_eq_some_iff.1 h
  rw [places, hm] at hp
  obtain ⟨before, text, he, rfl, hmention, hstart, hrest⟩ := hops?_split hr hp
  obtain ⟨lead, hlead⟩ := (Mention.read?_suffix hm).1
  have hstart' : start = lead ++ (before ++ text) := by
    refine List.append_cancel_right (?_ : start ++ rest = lead ++ (before ++ text) ++ rest)
    rw [← hlead, he]
    simp
  rw [← hlead, he] at hm
  have hfirst := Mention.read?_of_prefix hm (List.prefix_append (before ++ text) rest)
  refine ⟨lead ++ before, text, by simp [hstart'], hmention, ?_, hrest⟩
  rw [hstart']
  exact Statement.read?_eq_some_iff.2 ⟨before ++ text, hfirst, hstart⟩

theorem afterKeyword?_eq_none_of_append {keyword : List Char}
    (hword : (keyword.map Char.toLower).all isWordChar = true)
    (h : Statement.read? cs = some s) (hs : s.hops ≠ [])
    (hk : afterKeyword? keyword (cs ++ more) = none) : afterKeyword? keyword cs = none := by
  obtain ⟨c, hc, hstroke⟩ := Statement.read?_stroke h hs
  obtain ⟨id, rest, rfl, hid, hr⟩ := Statement.read?_word h
  rw [List.append_assoc] at hk
  cases rest with
  | nil =>
    have hw := hid.chars c (by simpa using hc)
    rcases hstroke with rfl | rfl
    · exact absurd hw (by decide +kernel)
    · exact absurd hw (by decide +kernel)
  | cons d r =>
    exact (afterKeyword?_word (d :: r) hword hid hr).2
      ((afterKeyword?_word (d :: r ++ more) hword hid hr).1 hk)

theorem mention_edges (place : Option Nat) (graph : FlowGraph) (edges : List Edge) (m : Mention) :
    mention place { graph with edges } m = { mention place graph m with edges } := by
  unfold mention
  cases m.appearance with
  | none => split <;> rfl
  | some a => split <;> rfl

theorem mentions_edges (place : Option Nat) (graph : FlowGraph) (edges : List Edge)
    (mentions : List Mention) : mentions.foldl (mention place) { graph with edges } =
      { mentions.foldl (mention place) graph with edges } := by
  induction mentions generalizing graph with
  | nil => rfl
  | cons m mentions ih => rw [List.foldl_cons, mention_edges, ih, List.foldl_cons]

theorem edges_mentions (place : Option Nat) (graph : FlowGraph) (mentions : List Mention) :
    (mentions.foldl (mention place) graph).edges = graph.edges := by
  have h := mentions_edges place graph graph.edges mentions
  exact (congrArg FlowGraph.edges h).trans rfl

/-- The edges of a chain up to a mention, and those from there on. -/
theorem edgesFrom_split {source target : String}
    (h : (source :: hops.map (·.2.id))[i]? = some target) : edgesFrom source hops =
      edgesFrom source (hops.take i) ++ edgesFrom target (hops.drop i) := by
  induction hops generalizing source i with
  | nil => simp [edgesFrom]
  | cons hop hops ih =>
    cases i with
    | zero =>
      cases h
      simp [edgesFrom]
    | succ i =>
      have hr : edgesFrom hop.2.id hops = edgesFrom hop.2.id (hops.take i) ++
        edgesFrom target (hops.drop i) := ih h
      simpa [edgesFrom] using hr

/-- A mention that was made is of a node that is known, so that its bare id adds nothing. -/
theorem Draft.add_split (draft : Draft) (h : s.mentions[i]? = some m) :
    (draft.add (.statement ⟨s.first, s.hops.take i⟩)).add
      (.statement ⟨⟨m.id, none⟩, s.hops.drop i⟩) = draft.add (.statement s) := by
  obtain ⟨first, hops⟩ := s
  have hids : (first.id :: hops.map (·.2.id))[i]? = some m.id := by
    have he : first.id :: hops.map (·.2.id) = (Statement.mentions ⟨first, hops⟩).map (·.id) := by
      simp [Statement.mentions]
    rw [he, List.getElem?_map, h, Option.map_some]
  have hmade : m ∈ Statement.mentions ⟨first, hops.take i⟩ := by
    have he : Statement.mentions ⟨first, hops.take i⟩ =
        (Statement.mentions ⟨first, hops⟩).take (i + 1) := by
      simp [Statement.mentions]
    rw [he]
    exact List.mem_of_getElem? ((List.getElem?_take_of_lt (Nat.lt_succ_self i)).trans h)
  have hknown : m.id ∈ ((Statement.mentions ⟨first, hops.take i⟩).foldl
      (mention draft.inside.head?) draft.graph).nodes.map (·.id) :=
    (mem_ids_mentions _ _).2 (.inr (List.mem_map_of_mem hmade))
  have hmentions : Statement.mentions ⟨first, hops⟩ =
      Statement.mentions ⟨first, hops.take i⟩ ++ (hops.drop i).map (·.2) := by
    simp [Statement.mentions]
  have hedges := edgesFrom_split hids
  have hbare : (Statement.mentions ⟨⟨m.id, none⟩, hops.drop i⟩).foldl (mention draft.inside.head?)
      ((Statement.mentions ⟨first, hops.take i⟩).foldl (mention draft.inside.head?) draft.graph) =
        (Statement.mentions ⟨first, hops⟩).foldl (mention draft.inside.head?) draft.graph := by
    have he : Statement.mentions ⟨⟨m.id, none⟩, hops.drop i⟩ =
      ⟨m.id, none⟩ :: (hops.drop i).map (·.2) := rfl
    rw [he, List.foldl_cons, mention_known _ hknown, hmentions, List.foldl_append]
  simp only [Draft.add, mentions_edges, hbare, Statement.edges, hedges, edges_mentions,
    List.append_assoc]

/-- A row that is a chain, in four parts: an indent, the chain up to the end of the mention `m`
inside it, the rest of the chain, and what is dropped from its end. -/
structure ChainRow (indent start rest trailing : List Char) (s : Statement) (m : Mention) :
    Prop where
  indented : indent.all isBlank = true
  chain : Line.ofText (trim (indent ++ start ++ (rest ++ trailing))) = .statement s
  whole : said (trim (indent ++ start ++ (rest ++ trailing))) = start ++ rest
  inside : ∃ i place, (places (start ++ rest))[i]? = some (place, rest) ∧
    s.mentions[i]? = some m ∧ 0 < i ∧ i < s.hops.length
  unopened : sameLetters m.id.toList "subgraph".toList = false

/-- Rows after a header with a chain among them, and the same rows with two in its place: the first
ends with a mention inside the chain, and the second starts with its bare id and goes on as the
chain does. -/
inductive Splits : List (List Char) → List (List Char) → Prop
  | mk (before after : List (List Char)) {indent start rest trailing : List Char} {s : Statement}
    {m : Mention} (hbody : meaningfulLines before ≠ [])
    (hrow : ChainRow indent start rest trailing s m) :
    Splits (before ++ (indent ++ start ++ (rest ++ trailing)) :: after)
      (before ++ (indent ++ start) :: (m.id.toList ++ (rest ++ trailing)) :: after)

theorem Line.says_of_statement {row : List Char} (h : Line.ofText (trim row) = .statement s) :
    Says row := by
  obtain ⟨-, -, hread⟩ := Line.ofText_eq_statement_iff.1 h
  obtain ⟨tail, -, ht⟩ := exists_said (trim row)
  obtain ⟨id, rest, hid, hw, -⟩ := Statement.read?_word hread
  obtain ⟨c, r, rfl⟩ := List.exists_cons_of_ne_nil hw.nonempty
  rw [hid] at ht
  rw [Says, ht]
  refine ⟨by simp, startsWith_eq_false_iff.2 fun hp => ?_⟩
  obtain ⟨rfl, -⟩ := List.cons_prefix_cons.1 hp
  exact absurd (hw.chars '%' List.mem_cons_self) (by decide +kernel)

theorem Line.ofText_until {indent : List Char} (hb : indent.all isBlank = true)
    (h : Statement.read? start = some s) (hs : s.hops ≠ [])
    (hlast : ∀ c ∈ start.getLast?, c ≠ ';' ∧ isBlank c = false)
    (hk : afterKeyword? "subgraph".toList start = none) :
    Line.ofText (trim (indent ++ start)) = .statement s := by
  have htrim : trim (indent ++ start) = start := by
    rw [trim_append_of_blank (List.all_eq_true.1 hb)]
    exact trim_eq_self (Statement.read?_head h) fun c hc => (hlast c hc).2
  have hsaid : said start = start := by
    rw [said, dropEndWhile_eq_self fun c hc => by simpa using (hlast c hc).1]
    exact dropEndWhile_eq_self fun c hc => (hlast c hc).2
  rw [htrim]
  exact Line.ofText_chain h hs hsaid hk

theorem Line.ofText_from {id trailing : List Char} (hid : IsWord id) (h : hops? rest = some hops)
    (hs : hops ≠ []) (hsaid : said (trimEnd (rest ++ trailing)) = rest)
    (hk : sameLetters id "subgraph".toList = false) :
    Line.ofText (trim (id ++ (rest ++ trailing))) =
      .statement ⟨⟨String.ofList id, none⟩, hops⟩ := by
  obtain ⟨link, place, hl⟩ := exists_link h hs
  obtain ⟨-, c, hc, hstroke⟩ := Link.read?_starts hl
  have hhead := hid.head []
  rw [List.append_nil] at hhead
  refine Line.ofText_chain (Statement.read?_bare hid h hs) hs ?_ ?_
  · rw [said_trim_append (List.mem_append_left _ hc) hstroke hhead hid.nonempty, hsaid]
  · refine (afterKeyword?_word rest (by decide +kernel) hid (Link.read?_not_word hl)).2 fun he => ?_
    rw [hk] at he
    cases he

theorem ChainRow.halves {indent trailing : List Char}
    (h : ChainRow indent start rest trailing s m) : ∃ i, s.mentions[i]? = some m ∧
      Line.ofText (trim (indent ++ start)) = .statement ⟨s.first, s.hops.take i⟩ ∧
      Line.ofText (trim (m.id.toList ++ (rest ++ trailing))) =
        .statement ⟨⟨m.id, none⟩, s.hops.drop i⟩ := by
  obtain ⟨-, hkey, hread⟩ := Line.ofText_eq_statement_iff.1 h.chain
  have hwhole := h.whole
  rw [hwhole] at hkey hread
  obtain ⟨i, place, hp, hm, hi, hlt⟩ := h.inside
  obtain ⟨i, rfl⟩ := Nat.exists_eq_succ_of_ne_zero (Nat.ne_of_gt hi)
  obtain ⟨before, text, hcut, ⟨_, hm', hmention⟩, hstart, hrest⟩ := Statement.read?_split hread hp
  cases hm.symm.trans hm'
  have htake : s.hops.take (i + 1) ≠ [] := List.ne_nil_of_length_pos (by simp; omega)
  have hdrop : s.hops.drop (i + 1) ≠ [] := List.ne_nil_of_length_pos (by simp; omega)
  refine ⟨i + 1, hm, ?_, ?_⟩
  · have hlast : ∀ c ∈ start.getLast?, c ≠ ';' ∧ isBlank c = false := by
      rw [hcut, List.getLast?_append_of_ne_nil _ (Mention.text_ne_nil hmention)]
      exact Mention.read?_last hmention
    exact Line.ofText_until h.indented hstart htake hlast
      (afterKeyword?_eq_none_of_append (by decide +kernel) hstart htake hkey)
  · obtain ⟨link, target, hl⟩ := exists_link hrest hdrop
    obtain ⟨-, c, hc, hstroke⟩ := Link.read?_starts hl
    have hsaid : said (trimEnd (rest ++ trailing)) = rest := by
      rw [List.append_assoc, trim_append_of_blank (List.all_eq_true.1 h.indented),
        said_trim_append (List.mem_append_left _ hc) hstroke (Statement.read?_head hstart)
          (Statement.ne_nil_of_read? hstart)] at hwhole
      exact List.append_cancel_left hwhole
    have hrow := Line.ofText_from (Mention.read?_word hmention) hrest hdrop hsaid h.unopened
    rwa [String.ofList_toList] at hrow

end Flow

/-- Rows draw the same after one of their chains is cut into two. -/
theorem drawn?_splits {rows more : List (List Char)} (h : Splits rows more) {graph : FlowGraph}
    (hd : drawn? rows = some (.flow graph)) : drawn? more = some (.flow graph) := by
  cases h with
  | mk before after hbody hrow =>
    obtain ⟨first, body, hb⟩ := List.exists_cons_of_ne_nil hbody
    obtain ⟨i, hm, hstart, hrest⟩ := hrow.halves
    simp only [drawn?, meaningfulLines_append, hb, List.cons_append,
      meaningfulLines_cons_says (Line.says_of_statement hrow.chain),
      meaningfulLines_cons_says (Line.says_of_statement hstart),
      meaningfulLines_cons_says (Line.says_of_statement hrest)] at hd ⊢
    obtain ⟨header, hh, he⟩ := Option.map_eq_some_iff.1 hd
    rw [hh, Option.map_some, ← he]
    cases header with
    | sequence => cases he
    | flow direction =>
      simp only [Diagram.ofLines, FlowGraph.ofLines, List.map_append, List.map_cons, hrow.chain,
        hstart, hrest, List.foldl_append, List.foldl_cons, Draft.add_split _ hm]

/-- A flowchart stays as it is when one of its chains is cut into two, as long as the text stays
within the limits. -/
theorem read_eq_of_splits {text other : List Char} {graph : FlowGraph}
    (hr : Diagram.read text = .ok (.flow graph))
    (hs : Splits (text.splitOn '\n') (other.splitOn '\n')) (hl : WithinLimits other) :
    Diagram.read other = .ok (.flow graph) := by
  obtain ⟨-, hd⟩ := Diagram.read_eq_ok_iff.1 hr
  exact Diagram.read_eq_ok_iff.2 ⟨hl, drawn?_splits hs hd⟩

def chainedText : String :=
  "graph TD\na\nsubgraph one\n\ta[/x] -- y --> b([z)]) -.->|w| c((a)) ==> d ;; \r\nend\nb[x]"

def splitText : String :=
  "graph TD\na\nsubgraph one\n\ta[/x] -- y --> b([z)])\nb -.->|w| c((a)) ==> d ;; \r\nend\nb[x]"

def chained : FlowGraph where
  direction := .topToBottom
  nodes := [⟨"a", "/x", .rectangle, true, none⟩, ⟨"b", "z)", .stadium, true, some 0⟩,
    ⟨"c", "a", .circle, true, some 0⟩, ⟨"d", "d", .rectangle, false, some 0⟩]
  edges := [⟨"a", "b", some "y", .solid, .none, .arrow⟩,
    ⟨"b", "c", some "w", .dotted, .none, .arrow⟩, ⟨"c", "d", none, .thick, .none, .arrow⟩]
  groups := [⟨"one", "one", ["b", "c", "d"]⟩]

theorem chained_splits : Diagram.read chainedText.toList = .ok (.flow chained) ∧
    Splits (chainedText.toList.splitOn '\n') (splitText.toList.splitOn '\n') ∧
    WithinLimits splitText.toList ∧ Diagram.read splitText.toList = .ok (.flow chained) := by
  have hr : Diagram.read chainedText.toList = .ok (.flow chained) := by decide +kernel
  have hl : WithinLimits splitText.toList :=
    ⟨by decide +kernel, by decide +kernel, by decide +kernel⟩
  have hs : Splits (chainedText.toList.splitOn '\n') (splitText.toList.splitOn '\n') := by
    have hrow : ChainRow "\t".toList "a[/x] -- y --> b([z)])".toList " -.->|w| c((a)) ==> d".toList
        " ;; \r".toList
        ⟨⟨"a", some ⟨"/x", .rectangle⟩⟩,
          [(⟨.solid, .arrow, some "y"⟩, ⟨"b", some ⟨"z)", .stadium⟩⟩),
          (⟨.dotted, .arrow, some "w"⟩, ⟨"c", some ⟨"a", .circle⟩⟩),
          (⟨.thick, .arrow, none⟩, ⟨"d", none⟩)]⟩ ⟨"b", some ⟨"z)", .stadium⟩⟩ :=
      ⟨by decide, by decide +kernel, by decide +kernel,
        ⟨1, "b([z)]) -.->|w| c((a)) ==> d".toList, by decide +kernel⟩, by decide +kernel⟩
    have hrows := Splits.mk ["graph TD".toList, ['a'], "subgraph one".toList]
      ["end".toList, "b[x]".toList] (by decide +kernel) hrow
    have htext : chainedText.toList.splitOn '\n' = ["graph TD".toList, ['a'],
        "subgraph one".toList, "\ta[/x] -- y --> b([z)]) -.->|w| c((a)) ==> d ;; \r".toList,
        "end".toList, "b[x]".toList] := by
      decide +kernel
    have hsplit : splitText.toList.splitOn '\n' = ["graph TD".toList, ['a'],
        "subgraph one".toList, "\ta[/x] -- y --> b([z)])".toList,
        "b -.->|w| c((a)) ==> d ;; \r".toList, "end".toList, "b[x]".toList] := by
      decide +kernel
    rw [htext, hsplit]
    exact hrows
  exact ⟨hr, hs, hl, read_eq_of_splits hr hs hl⟩

end Chartboard

import FlatQuery.Proofs.Grouping
import FlatQuery.Proofs.Results
import FlatQuery.Sql.Reading

set_option autoImplicit false

/-! # Terms of queries

The terms that a query tree keeps in its SELECT lists and under ON and WHERE, and the expressions of
a statement in the same places. The terms of a tree that was read are grouped as their operators bind
(`read_fits`), and those of a tree that is lowered stand for the expressions of the statement, one by
one (`Query.forall₂_exprs`). -/

namespace FlatQuery

/-! ## Expressions of statements -/

/-- The expression that an item of a SELECT list is. -/
def SelectItem.exprs : SelectItem → List Expr
  | wildcard => []
  | expr e => [e]

mutual

/-- The expressions in an entry of a FROM list. -/
def FromItem.exprs : FromItem → List Expr
  | .table _ => []
  | .subquery query _ => query.exprs

/-- The expressions in a joined entry. -/
def JoinItem.exprs : JoinItem → List Expr
  | ⟨right, on⟩ => right.exprs ++ on.toList

/-- The expressions in joined entries. -/
def JoinItem.allExprs : List JoinItem → List Expr
  | [] => []
  | j :: js => j.exprs ++ JoinItem.allExprs js

/-- The expressions in the SELECT list of a block, in its FROM list and under WHERE. -/
def Select.exprs : Select → List Expr
  | ⟨_, items, first, joins, condition, _⟩ =>
    items.flatMap SelectItem.exprs ++ (first.exprs ++ JoinItem.allExprs joins) ++ condition.toList

/-- The expressions in the blocks of a statement. -/
def Statement.exprs : Statement → List Expr
  | .select block => block.exprs
  | .setOperation _ left right => left.exprs ++ right.exprs

end

namespace Sql

open TokenParser

/-! ## Terms of query trees -/

/-- The term that an item of a SELECT list is. -/
def Item.terms : Item → List Term
  | wildcard _ => []
  | qualifiedWildcard _ _ => []
  | term t => [t]
  | aliased t _ => [t]

/-- The term under ON. -/
def JoinCondition.terms : JoinCondition → List Term
  | on t => [t]
  | _ => []

/-- The term under ON of a join that may have one. -/
def JoinOperator.terms : JoinOperator → List Term
  | conditional _ condition => condition.terms
  | _ => []

mutual

/-- The terms in an entry of a FROM list. -/
def Factor.terms : Factor → List Term
  | .derived _ query _ => query.terms
  | .table _ _ _ _ _ => []
  | .joined _ _ => []
  | .other _ _ _ => []

/-- The terms in a join. -/
def Join.terms : Join → List Term
  | ⟨operator, factor⟩ => factor.terms ++ operator.terms

/-- The terms in joins. -/
def Join.allTerms : List Join → List Term
  | [] => []
  | j :: js => j.terms ++ Join.allTerms js

/-- The terms in an element of a FROM list. -/
def Source.terms : Source → List Term
  | ⟨factor, joins⟩ => factor.terms ++ Join.allTerms joins

/-- The terms in a FROM list. -/
def Source.allTerms : List Source → List Term
  | [] => []
  | s :: ss => s.terms ++ Source.allTerms ss

/-- The terms in the SELECT list of a block, in its FROM list and under WHERE. -/
def Block.terms : Block → List Term
  | ⟨_, _, items, _, sources, _, condition, _, _, _, _, _, _, _⟩ =>
    items.flatMap Item.terms ++ Source.allTerms sources ++ condition.toList

/-- The terms in the blocks of a body. -/
def Body.terms : Body → List Term
  | .block b => b.terms
  | .query q => q.terms
  | .setOperation _ _ left right => left.terms ++ right.terms
  | .values _ => []
  | .other _ => []

/-- The terms in the blocks of a query. -/
def Query.terms : Query → List Term
  | ⟨_, body, _, _, _, _, _, _, _⟩ => body.terms

end

/-- The terms in the blocks of a sentence. -/
def Sentence.terms : Sentence → List Term
  | query q => q.terms
  | command _ => []

/-! ## Terms that are read -/

/-- Whether terms are grouped as their operators bind and fit in some levels, of which a number is
taken by what the terms stand in. -/
def AllFit (taken levels : Nat) (ts : List Term) : Prop := ∀ t ∈ ts, t.Fits taken levels

section AllFit

variable {taken levels : Nat} {ts us : List Term}

theorem allFit_nil : AllFit taken levels [] := List.forall_mem_nil _

theorem AllFit.append (hts : AllFit taken levels ts) (hus : AllFit taken levels us) :
    AllFit taken levels (ts ++ us) :=
  List.forall_mem_append.2 ⟨hts, hus⟩

theorem allFit_singleton {t : Term} (h : t.Fits taken levels) : AllFit taken levels [t] :=
  List.forall_mem_singleton.2 h

theorem AllFit.fewer {fewer : Nat} (h : AllFit taken levels ts) (hfewer : fewer ≤ taken) :
    AllFit fewer levels ts :=
  fun t ht => (h t ht).mono hfewer

theorem AllFit.succ (h : AllFit taken levels ts) : AllFit (taken + 1) (levels + 1) ts :=
  fun t ht => (h t ht).succ

theorem allFit_joins {js : List Join} (h : ∀ j ∈ js, AllFit taken levels j.terms) :
    AllFit taken levels (Join.allTerms js) := by
  induction js with
  | nil => exact allFit_nil
  | cons j js ih =>
    obtain ⟨hj, hjs⟩ := List.forall_mem_cons.1 h
    exact hj.append (ih hjs)

theorem allFit_sources {ss : List Source} (h : ∀ s ∈ ss, AllFit taken levels s.terms) :
    AllFit taken levels (Source.allTerms ss) := by
  induction ss with
  | nil => exact allFit_nil
  | cons s ss ih =>
    obtain ⟨hs, hss⟩ := List.forall_mem_cons.1 h
    exact hs.append (ih hss)

end AllFit

/-- Whether a grammar reads queries, bodies and entries of FROM lists whose terms are grouped as
their operators bind. -/
structure Grammar.GroupsQueries (g : Grammar) : Prop where
  query : ∀ levels, Yields g.query levels (AllFit 2 levels ·.terms)
  body : ∀ low levels, Yields (g.body low) levels (AllFit 1 levels ·.terms)
  factor : ∀ levels, Yields g.factor levels (AllFit 1 levels ·.terms)

section Queries

variable {g : Grammar} {levels : Nat}

theorem yields_item (ht : g.GroupsTerms) : Yields g.item levels (AllFit 1 levels ·.terms) := by
  unfold Grammar.item
  refine .before fun wildcard => ?_
  split
  · exact .before fun options => .pure allFit_nil
  · exact .before fun options => .pure allFit_nil
  · refine (yields_expr ht).bind fun t hfits => .before fun label => ?_
    split
    · exact .pure (allFit_singleton hfits)
    · exact .pure (allFit_singleton hfits)

theorem yields_joinCondition (ht : g.GroupsTerms) (natural : Bool) :
    Yields (g.joinCondition natural) levels (AllFit 1 levels ·.terms) := by
  unfold Grammar.joinCondition
  split
  · exact .pure allFit_nil
  · refine .before fun on => ?_
    split
    · exact (yields_expr ht).bind fun t hfits => .pure (allFit_singleton hfits)
    · refine .before fun using_ => ?_
      split
      · exact .before fun columns => .pure allFit_nil
      · exact .pure allFit_nil

theorem yields_join? (ht : g.GroupsTerms) (hq : g.GroupsQueries) :
    Yields g.join? levels fun o => ∀ j ∈ o, AllFit 1 levels j.terms := by
  have hsome {j : Join} (h : AllFit 1 levels j.terms) :
      ∀ j' ∈ some j, AllFit 1 levels j'.terms := by
    rintro _ ⟨⟩
    exact h
  unfold Grammar.join?
  refine .before fun cross => ?_
  split
  · refine .before fun word => (hq.factor levels).bind fun factor hfactor => .pure (hsome ?_)
    split <;> exact hfactor.append allFit_nil
  · refine .before fun outer => ?_
    split
    · exact .before fun _ => (hq.factor levels).bind fun factor hfactor =>
        .pure (hsome (hfactor.append allFit_nil))
    · refine .before fun natural => .before fun key => ?_
      split
      · exact .before fun kind => (hq.factor levels).bind fun factor hfactor =>
          (yields_joinCondition ht natural).bind fun condition hcondition =>
            .pure (hsome (hfactor.append hcondition))
      · exact .pure fun _ h => by cases h

theorem yields_source (ht : g.GroupsTerms) (hq : g.GroupsQueries) :
    Yields g.source levels (AllFit 1 levels ·.terms) := by
  unfold Grammar.source
  exact (hq.factor levels).bind fun factor hfactor =>
    ((yields_join? ht hq).many).bind fun joins hjoins =>
      .pure (hfactor.append (allFit_joins hjoins))

theorem yields_rotations {bound : Nat} {table : Factor} (h : AllFit 1 levels table.terms) :
    Yields (g.rotations bound table) levels (AllFit 1 levels ·.terms) := by
  induction bound generalizing table with
  | zero => exact .pure h
  | succ bound ih =>
    unfold Grammar.rotations
    refine .before fun word => ?_
    split
    · have hrotation (word : String) :
          Yields (g.rotation table word) levels (AllFit 1 levels ·.terms) :=
        .before fun rest => .before fun label => .pure allFit_nil
      exact (hrotation _).bind fun rotated hrotated => ih hrotated
    · exact .pure h

theorem yields_derived (hq : g.GroupsQueries) (lateral : Bool) :
    Yields (g.derived lateral) levels (AllFit 1 levels ·.terms) :=
  (hq.query levels).bind fun _ hquery => .before fun _ => .before fun _ =>
    .pure (hquery.fewer (Nat.le_succ 1))

theorem terms_withAlias (label : TableAlias) (f : Factor) :
    (Grammar.withAlias label f).terms = f.terms := by
  cases f <;> rfl

theorem yields_parenthesizedFactor (ht : g.GroupsTerms) (hq : g.GroupsQueries) :
    Yields g.parenthesizedFactor levels (AllFit 1 levels ·.terms) := by
  unfold Grammar.parenthesizedFactor
  refine ((yields_derived hq false).attempt).bind fun derived hderived => ?_
  split
  · next table => exact .before fun _ => yields_rotations (hderived table rfl)
  · refine (yields_source ht hq).bind fun inner hinner => .before fun _ => .before fun label => ?_
    -- joins are kept as a text, and a single entry loses its parentheses
    split
    · exact .pure allFit_nil
    · exact .pure allFit_nil
    · next factor => exact .pure fun t h => hinner t (List.mem_append_left _ h)
    · next factor label =>
      refine .before fun _ => .pure fun t h => hinner t (List.mem_append_left _ ?_)
      rwa [terms_withAlias] at h

theorem yields_lateral (hq : g.GroupsQueries) :
    Yields g.lateral levels (AllFit 1 levels ·.terms) := by
  unfold Grammar.lateral
  refine .before fun parenthesis => ?_
  split
  · exact yields_derived hq true
  · exact .before fun _ => .before fun _ => .before fun _ => .before fun _ => .pure allFit_nil

theorem yields_unnest : Yields g.unnest levels (AllFit 1 levels ·.terms) := by
  unfold Grammar.unnest
  refine .before fun arrays => .before fun label => .before fun marked => ?_
  extract_lets behindOffset
  have hoffset (offset : Bool) : Yields (behindOffset offset) levels (AllFit 1 levels ·.terms) := by
    cases offset with
    | true => exact .before fun offsetName => .pure allFit_nil
    | false => exact .before fun offsetName => .pure allFit_nil
  split
  · exact .before hoffset
  · exact .before hoffset

theorem yields_namedFactor : Yields g.namedFactor levels (AllFit 1 levels ·.terms) := by
  unfold Grammar.namedFactor
  refine .before fun table => .before fun partitions => .before fun parenthesis => ?_
  extract_lets behindArguments
  have harguments (arguments : Option (List String)) :
      Yields (behindArguments arguments) levels (AllFit 1 levels ·.terms) := by
    refine .before fun label => .before fun with_ => ?_
    extract_lets behindHints
    have hhints (hints : List String) :
        Yields (behindHints hints) levels (AllFit 1 levels ·.terms) :=
      .before fun tokens => yields_rotations allFit_nil
    split
    · exact .before fun terms => .before fun _ => .before hhints
    · exact .before hhints
  split
  · exact .before harguments
  · exact .before harguments

theorem yields_readFactor (ht : g.GroupsTerms) (hq : g.GroupsQueries) :
    Yields g.readFactor levels (AllFit 1 levels ·.terms) := by
  unfold Grammar.readFactor
  refine .before fun lateral => ?_
  split
  · exact yields_lateral hq
  · refine .before fun table => ?_
    split
    · exact .before fun _ => .before fun _ => .pure allFit_nil
    · refine .before fun parenthesis => ?_
      split
      · exact yields_parenthesizedFactor ht hq
      · refine .before fun unnest => ?_
        split
        · exact yields_unnest
        · exact yields_namedFactor

theorem yields_block (ht : g.GroupsTerms) (hq : g.GroupsQueries) :
    Yields g.block levels (AllFit 1 levels ·.terms) := by
  have hitems : Yields (commaSeparated g.item) levels fun items =>
      ∀ i ∈ items, AllFit 1 levels i.terms := (yields_item ht).separated
  have hsources : Yields (after? ["FROM"] (commaSeparated g.source)) levels fun o =>
      AllFit 1 levels (Source.allTerms (o.getD [])) := by
    refine (yields_source ht hq).separated.after?.mono fun o h => ?_
    cases o with
    | none => exact allFit_nil
    | some sources => exact allFit_sources (h sources rfl)
  have hcondition : Yields (after? ["WHERE"] g.expr) levels fun o => AllFit 1 levels o.toList :=
    (yields_expr ht).after?.mono fun o h t ht => h t (Option.mem_toList.1 ht)
  unfold Grammar.block
  refine .before fun distinct => .before fun top => hitems.bind fun items hitems =>
    .before fun into => hsources.bind fun sources hsources => .before fun lateralViews =>
    hcondition.bind fun condition hcondition => .before fun groupBy => .before fun clusterBy =>
    .before fun distributeBy => .before fun sortBy => .before fun having => .before fun windows =>
    .before fun qualify => .pure ?_
  refine AllFit.append (AllFit.append (fun t ht => ?_) hsources) hcondition
  obtain ⟨item, hitem, hterm⟩ := List.mem_flatMap.1 ht
  exact hitems item hitem t hterm

theorem yields_simpleBody (ht : g.GroupsTerms) (hq : g.GroupsQueries) :
    Yields g.simpleBody levels (AllFit 1 levels ·.terms) := by
  unfold Grammar.simpleBody
  refine .before fun select => ?_
  split
  · exact (yields_block ht hq).map fun block h => h
  · refine .before fun values => ?_
    split
    · exact .map_of_forall fun _ => allFit_nil
    · refine .before fun table => ?_
      split
      · exact .map_of_forall fun _ => allFit_nil
      · exact (hq.query levels).parenthesized.map fun query h => h.fewer (Nat.le_succ 1)

theorem yields_extendBody (hq : g.GroupsQueries) {low bound : Nat} {left : Body}
    (h : AllFit 1 levels left.terms) :
    Yields (g.extendBody low bound left) levels (AllFit 1 levels ·.terms) := by
  induction bound generalizing left with
  | zero => exact .pure h
  | succ bound ih =>
    unfold Grammar.extendBody
    refine .before fun key => ?_
    split
    · exact .pure h
    · split
      · exact .pure h
      · exact .before fun _ => .before fun quantifier => (hq.body _ levels).bind fun right hright =>
          ih (h.append hright)

theorem yields_readBody (ht : g.GroupsTerms) (hq : g.GroupsQueries) (low : Nat) :
    Yields (g.readBody low) levels (AllFit 1 levels ·.terms) :=
  (yields_simpleBody ht hq).bind fun _ hfirst => .before fun _ => yields_extendBody hq hfirst

theorem yields_readQuery (hq : g.GroupsQueries) :
    Yields g.readQuery levels (AllFit 2 levels ·.terms) := by
  unfold Grammar.readQuery
  refine .deeper fun fewer hfewer => .before fun ctes => .before fun insert => ?_
  split
  · exact .before fun normal => .pure allFit_nil
  · refine .before fun update => ?_
    split
    · exact .before fun normal => .pure allFit_nil
    · rw [hfewer]
      exact (hq.body 0 fewer).bind fun body hbody => .before fun orderBy => .before fun known =>
        .before fun bounds => .before fun limitBy => .before fun fetch => .before fun tokens =>
        .before fun locks => .pure hbody.succ

end Queries

/-- **Queries of every height have terms that are grouped as their operators bind.** -/
theorem groupsQueries_ofHeight (height : Nat) : (Grammar.ofHeight height).GroupsQueries := by
  induction height with
  | zero => exact ⟨fun _ => .failure, fun _ _ => .failure, fun _ => .failure⟩
  | succ height ih =>
    have ht : (Grammar.ofHeight height).GroupsTerms := groupsTerms_ofHeight height
    exact ⟨fun _ => yields_readQuery ih, fun low _ => yields_readBody ht ih low,
      fun _ => yields_readFactor ht ih⟩

section Sentences

variable {g : Grammar} {levels : Nat} {statement : TokenParser Sentence}

theorem yields_sentenceWith (hq : g.GroupsQueries) :
    Yields (g.sentenceWith statement) levels (AllFit 2 levels ·.terms) := by
  unfold Grammar.sentenceWith
  refine .before fun key => .before fun sign => ?_
  split
  · exact (hq.query levels).bind fun query hquery => .pure hquery
  · refine .before fun _ => ?_
    split
    · exact .before fun _ => .pure allFit_nil
    · exact .failure

theorem yields_sentence (hq : g.GroupsQueries) (bound : Nat) :
    Yields (g.sentence bound) levels (AllFit 3 levels ·.terms) := by
  cases bound with
  | zero => exact .failure
  | succ bound =>
    refine .deeper fun fewer hfewer => ?_
    rw [hfewer]
    exact (yields_sentenceWith hq).mono fun s hs => hs.succ

theorem yields_upToStatements {P : Sentence → Prop} (h : Yields statement levels P)
    (bound : Nat) :
    Yields (Grammar.upToStatements statement bound) levels fun ss => ∀ s ∈ ss, P s := by
  induction bound with
  | zero => exact .pure (List.forall_mem_nil P)
  | succ bound ih =>
    unfold Grammar.upToStatements
    refine .before fun _ => .before fun next? => ?_
    split
    · exact .pure (List.forall_mem_nil P)
    · refine h.bind fun first hfirst => .before fun semicolon => ?_
      split
      · exact ih.bind fun others hothers => .pure (List.forall_mem_cons.2 ⟨hfirst, hothers⟩)
      · exact .before fun _ => .before fun _ => .before fun _ =>
          .pure (List.forall_mem_singleton.2 hfirst)

end Sentences

/-- **The terms of a text that is read are grouped as their operators bind**, and leave three levels
for the sentence, the query and the place that they stand in. -/
theorem read_fits {tokens : List Token} {sentences : List Sentence}
    (h : Grammar.read tokens = some sentences) :
    ∀ s ∈ sentences, AllFit 3 Grammar.maxLevels s.terms := by
  obtain ⟨⟨_, rest⟩, hrun, rfl⟩ := Option.map_eq_some_iff.1 h
  have hsentences : Yields (Grammar.ofHeight (4 * (tokens.length + 1))).sentences
      Grammar.maxLevels fun ss => ∀ s ∈ ss, AllFit 3 Grammar.maxLevels s.terms :=
    .before fun _ => .before fun _ =>
      yields_upToStatements (yields_sentence (groupsQueries_ofHeight _) _) _
  exact hsentences _ _ _ hrun

/-! ## Terms that are lowered -/

/-- Whether terms stand for expressions, one by one. -/
def StandFor : List Term → List Expr → Prop := List.Forall₂ fun t e => t.lower = .ok e

section StandFor

variable {ts us : List Term} {es fs : List Expr}

theorem standFor_nil : StandFor [] [] := .nil

theorem StandFor.append (hts : StandFor ts es) (hus : StandFor us fs) :
    StandFor (ts ++ us) (es ++ fs) :=
  List.rel_append hts hus

theorem standFor_condition {condition : Option Term} {e : Option Expr}
    (h : condition.mapM Term.lower = .ok e) : StandFor condition.toList e.toList := by
  cases condition with
  | none =>
    cases h
    exact standFor_nil
  | some t =>
    cases ht : t.lower with
    | error error =>
      rw [Option.mapM_some, ht] at h
      cases h
    | ok e' =>
      rw [Option.mapM_some, ht] at h
      cases h
      exact .cons ht .nil

theorem standFor_items {items : List Item} {lowered : List SelectItem}
    (h : items.mapM Item.lower = .ok lowered) :
    StandFor (items.flatMap Item.terms) (lowered.flatMap SelectItem.exprs) := by
  induction items generalizing lowered with
  | nil =>
    cases h
    exact standFor_nil
  | cons item items ih =>
    rw [List.mapM_cons] at h
    obtain ⟨first, hfirst, h⟩ := bind_eq_ok_iff.1 h
    obtain ⟨others, hothers, h⟩ := bind_eq_ok_iff.1 h
    cases h
    refine StandFor.append ?_ (ih hothers)
    cases item with
    | wildcard options =>
      cases hfirst
      exact standFor_nil
    | term t =>
      obtain ⟨e, ht, h⟩ := bind_eq_ok_iff.1 hfirst
      cases h
      exact .cons ht .nil
    | aliased t label | qualifiedWildcard qualifier options => cases hfirst

theorem standFor_operator {operator : JoinOperator} {on : Option Expr}
    (h : operator.lower = .ok on) : StandFor operator.terms on.toList := by
  unfold JoinOperator.lower at h
  split at h
  · cases h
    exact standFor_nil
  · cases h
    exact standFor_nil
  · next t =>
    cases ht : t.lower with
    | error error =>
      rw [ht] at h
      cases h
    | ok e =>
      rw [ht] at h
      cases h
      exact .cons ht .nil
  all_goals cases h

end StandFor

theorem exprs_orderRows {s s' : Statement} {terms : List SortTerm}
    (h : orderRows s terms = .ok s') : s'.exprs = s.exprs := by
  match terms, s with
  | [], s =>
    cases h
    rfl
  | _ :: _, .select ⟨distinct, items, first, joins, condition, ordered⟩ =>
    obtain ⟨keys, -, h⟩ := bind_eq_ok_iff.1 h
    cases h
    rfl
  | _ :: _, .setOperation .. => cases h

/-- The first entry of a FROM list is not joined to anything. -/
theorem on_eq_none {ss : List Source} {first : JoinItem} {joins : List JoinItem}
    (h : Source.lowerAll ss = .ok (first :: joins)) : first.on = none := by
  cases ss with
  | nil => cases h
  | cons s ss =>
    obtain ⟨factor, js⟩ := s
    obtain ⟨_, hs, h⟩ := bind_eq_ok_iff.1 h
    obtain ⟨_, -, h⟩ := bind_eq_ok_iff.1 h
    obtain ⟨_, -, hs⟩ := bind_eq_ok_iff.1 hs
    obtain ⟨_, -, hs⟩ := bind_eq_ok_iff.1 hs
    cases hs
    cases h
    rfl

theorem allExprs_append (js ks : List JoinItem) :
    JoinItem.allExprs (js ++ ks) = JoinItem.allExprs js ++ JoinItem.allExprs ks := by
  induction js with
  | nil => rfl
  | cons j js ih => rw [List.cons_append, JoinItem.allExprs, JoinItem.allExprs, ih, List.append_assoc]

mutual

theorem Factor.standFor : (f : Factor) → ∀ {item : FromItem}, f.lower = .ok item →
    StandFor f.terms item.exprs
  | .table name partitions arguments alias_ hints, item, h => by
    unfold Factor.lower at h
    split at h
    · cases h
    · obtain ⟨ref, -, h⟩ := bind_eq_ok_iff.1 h
      cases h
      exact standFor_nil
  | .derived lateral query alias_, item, h => by
    obtain ⟨s, hs, h⟩ := bind_eq_ok_iff.1 h
    cases h
    exact query.standFor hs
  | .joined _ _, item, h => by cases h
  | .other _ _ _, item, h => by cases h

theorem Join.standFor : (j : Join) → ∀ {item : JoinItem}, j.lower = .ok item →
    StandFor j.terms item.exprs
  | ⟨operator, factor⟩, item, h => by
    obtain ⟨right, hright, h⟩ := bind_eq_ok_iff.1 h
    obtain ⟨on, hon, h⟩ := bind_eq_ok_iff.1 h
    cases h
    exact (factor.standFor hright).append (standFor_operator hon)

theorem Join.allStandFor : (js : List Join) → ∀ {items : List JoinItem},
    Join.lowerAll js = .ok items → StandFor (Join.allTerms js) (JoinItem.allExprs items)
  | [], items, h => by
    cases h
    exact standFor_nil
  | j :: js, items, h => by
    obtain ⟨first, hfirst, h⟩ := bind_eq_ok_iff.1 h
    obtain ⟨others, hothers, h⟩ := bind_eq_ok_iff.1 h
    cases h
    exact (j.standFor hfirst).append (Join.allStandFor js hothers)

theorem Source.standFor : (s : Source) → ∀ {items : List JoinItem}, s.lower = .ok items →
    StandFor s.terms (JoinItem.allExprs items)
  | ⟨factor, joins⟩, items, h => by
    obtain ⟨first, hfirst, h⟩ := bind_eq_ok_iff.1 h
    obtain ⟨others, hothers, h⟩ := bind_eq_ok_iff.1 h
    cases h
    have hall := (factor.standFor hfirst).append (Join.allStandFor joins hothers)
    rwa [← List.append_nil first.exprs] at hall

theorem Source.allStandFor : (ss : List Source) → ∀ {items : List JoinItem},
    Source.lowerAll ss = .ok items → StandFor (Source.allTerms ss) (JoinItem.allExprs items)
  | [], items, h => by
    cases h
    exact standFor_nil
  | s :: ss, items, h => by
    obtain ⟨first, hfirst, h⟩ := bind_eq_ok_iff.1 h
    obtain ⟨others, hothers, h⟩ := bind_eq_ok_iff.1 h
    cases h
    rw [allExprs_append]
    exact (s.standFor hfirst).append (Source.allStandFor ss hothers)

theorem Block.standFor : (b : Block) → ∀ {block : Select}, b.lower = .ok block →
    StandFor b.terms block.exprs
  | ⟨distinct, top, items, into, sources, lateralViews, condition, groupBy, clusterBy,
      distributeBy, sortBy, having, windows, qualify⟩, block, h => by
    unfold Block.lower at h
    split at h
    · cases h
    · obtain ⟨entries, hentries, h⟩ := bind_eq_ok_iff.1 h
      cases entries with
      | nil => cases h
      | cons first joins =>
        obtain ⟨loweredItems, hitems, h⟩ := bind_eq_ok_iff.1 h
        obtain ⟨loweredCondition, hcondition, h⟩ := bind_eq_ok_iff.1 h
        cases h
        have hsources := Source.allStandFor sources hentries
        have hon : first.on = none := on_eq_none hentries
        obtain ⟨right, on⟩ := first
        obtain rfl : on = none := hon
        rw [JoinItem.allExprs, JoinItem.exprs, Option.toList_none, List.append_nil] at hsources
        exact ((standFor_items hitems).append hsources).append (standFor_condition hcondition)

theorem Body.standFor : (b : Body) → ∀ {s : Statement}, b.lower = .ok s →
    StandFor b.terms s.exprs
  | .block b, s, h => by
    obtain ⟨block, hblock, h⟩ := bind_eq_ok_iff.1 h
    cases h
    exact b.standFor hblock
  | .query q, s, h => q.standFor h
  | .setOperation _ _ left right, s, h => by
    obtain ⟨l, hl, h⟩ := bind_eq_ok_iff.1 h
    obtain ⟨r, hr, h⟩ := bind_eq_ok_iff.1 h
    cases h
    exact (left.standFor hl).append (right.standFor hr)
  | .values _, s, h => by cases h
  | .other _, s, h => by cases h

/-- **The terms of a query stand for the expressions of its statement**, one by one. -/
theorem Query.standFor : (q : Query) → ∀ {s : Statement}, q.lower = .ok s →
    StandFor q.terms s.exprs
  | ⟨ctes, body, orderBy, limit, offset, limitBy, fetch, locks, resultForm⟩, s, h => by
    unfold Query.lower at h
    split at h
    · cases h
    · obtain ⟨inner, hinner, h⟩ := bind_eq_ok_iff.1 h
      rw [exprs_orderRows h]
      exact body.standFor hinner

end

end Sql

end FlatQuery

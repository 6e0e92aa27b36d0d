import Corvid.Proofs.Expr.Parts
import Corvid.Proofs.Grammar.Joining

/-!
The phrases of a derivation. Each node of a tree is built by one production, for the tokens that the production
derives: its phrase. Brackets around an expression build no node, so they are in the phrases of the nodes around them
and not in that of the node inside. Two nodes have no phrase: the block of a conditional without an alternative, and
what is shown by a printing word with nothing to show.

The phrases are met from left to right. Walking along the tokens, each node is built at the token that its phrase
begins with, and nodes are built in preorder: first the whole, then its parts in the order in which they are written.
-/
namespace Corvid

namespace Expr

mutual

/-- The nodes of a tree, each before the nodes below it. -/
def preorder : Expr → List Expr
  | none mark => [none mark]
  | literal mark kind lexeme => [literal mark kind lexeme]
  | name mark text => [name mark text]
  | assign mark text value => assign mark text value :: value.preorder
  | list mark elements => list mark elements :: preorderAll elements
  | dict mark pairs => dict mark pairs :: preorderPairs pairs
  | subscript mark target index => subscript mark target index :: (target.preorder ++ index.preorder)
  | store mark target index value =>
    store mark target index value :: (target.preorder ++ index.preorder ++ value.preorder)
  | join mark joint left right => join mark joint left right :: (left.preorder ++ right.preorder)
  | negate mark operand => negate mark operand :: operand.preorder
  | block mark body => block mark body :: preorderAll body
  | conditional mark condition yes no =>
    conditional mark condition yes no :: (condition.preorder ++ yes.preorder ++ no.preorder)
  | loop mark item source body => loop mark item source body :: (source.preorder ++ body.preorder)
  | function mark text parameters body => function mark text parameters body :: body.preorder
  | call mark text arguments => call mark text arguments :: preorderAll arguments
  | print mark shown newline => print mark shown newline :: shown.preorder
  | unknown mark kind => [unknown mark kind]

def preorderAll : List Expr → List Expr
  | [] => []
  | expr :: rest => expr.preorder ++ preorderAll rest

def preorderPairs : List (Expr × Expr) → List Expr
  | [] => []
  | (key, value) :: rest => key.preorder ++ value.preorder ++ preorderPairs rest

end

@[simp] theorem preorderAll_eq_flatMap (exprs : List Expr) : preorderAll exprs = exprs.flatMap preorder := by
  induction exprs with
  | nil => rfl
  | cons expr rest ih => rw [preorderAll, ih, List.flatMap_cons]

@[simp] theorem preorderPairs_eq_flatMap (pairs : List (Expr × Expr)) :
    preorderPairs pairs = pairs.flatMap fun pair => pair.1.preorder ++ pair.2.preorder := by
  induction pairs with
  | nil => rfl
  | cons pair rest ih => rw [preorderPairs, ih, List.flatMap_cons]

/-- The nodes directly below a node that stand in the text: not those that are put in where nothing is written. -/
def written : Expr → List Expr
  | conditional _ condition yes (block .absent []) => [condition, yes]
  | print _ (none .absent) _ => []
  | other => other.children

theorem written_subset (expr : Expr) : expr.written ⊆ expr.children := by
  rw [written.eq_def]
  split
  · exact List.subset_append_left [_, _] [_]
  · exact List.nil_subset _
  · exact List.Subset.refl _

end Expr

namespace Grammar

/-- A node of a tree, with the tokens that it was built for. -/
structure Site where
  node : Expr
  phrase : List Token

/-- The node is marked with the place of the first token of its phrase, and so are those below it that are written. -/
structure Site.Placed (site : Site) : Prop where
  mark_eq : site.node.mark = Parser.programMark site.phrase
  parts : ∀ part ∈ site.node.written, part.mark ≠ .absent

/-- The sites of nodes along a text, as they are met on a way over the tokens from left to right. A phrase is met where
it begins, and a site without a phrase is met anywhere. -/
inductive Walk : List Token → List Site → Prop where
  | done : Walk [] []
  | pass {tokens : List Token} {sites : List Site} (token : Token) (rest : Walk tokens sites) :
      Walk (token :: tokens) sites
  | meet {tokens : List Token} {sites : List Site} {site : Site} (here : site.phrase <+: tokens)
      (rest : Walk tokens sites) : Walk tokens (site :: sites)

namespace Walk

/-- A way that meets nothing. -/
theorem past : (tokens : List Token) → Walk tokens []
  | [] => done
  | token :: tokens => pass token (past tokens)

theorem append {tokens more : List Token} {sites others : List Site} (walk : Walk tokens sites)
    (onward : Walk more others) : Walk (tokens ++ more) (sites ++ others) := by
  induction walk with
  | done => exact onward
  | pass token _ ih => exact pass token ih
  | meet here _ ih => exact meet (here.trans (List.prefix_append _ _)) ih

/-- A way may go on and meet nothing more. -/
theorem before {tokens : List Token} {sites : List Site} (walk : Walk tokens sites) (more : List Token) :
    Walk (tokens ++ more) sites := by
  have longer := walk.append (past more)
  rwa [List.append_nil] at longer

/-- A site without a phrase may be met at the end. -/
theorem unwritten {tokens : List Token} {sites : List Site} (walk : Walk tokens sites) (node : Expr) :
    Walk tokens (sites ++ [⟨node, []⟩]) := by
  have last : Walk [] [⟨node, []⟩] := meet List.nil_prefix done
  have longer := walk.append last
  rwa [List.append_nil] at longer

/-- Everything that is met has its phrase on the way. -/
theorem infix_of_mem {tokens : List Token} {sites : List Site} (walk : Walk tokens sites) {site : Site}
    (member : site ∈ sites) : site.phrase <:+: tokens := by
  induction walk with
  | done => cases member
  | pass token _ ih => exact (ih member).trans (List.suffix_cons token _).isInfix
  | meet here _ ih =>
    obtain rfl | member := List.mem_cons.mp member
    · exact here.isInfix
    · exact ih member

/-- What is met later begins no earlier, if the tokens are in order. -/
theorem pairwise {R : Token → Token → Prop} (refl : ∀ token, R token token) {tokens : List Token} {sites : List Site}
    (walk : Walk tokens sites) (ordered : tokens.Pairwise R) :
    sites.Pairwise fun site later => ∀ token ∈ site.phrase.head?, ∀ token' ∈ later.phrase.head?, R token token' := by
  induction walk with
  | done => exact .nil
  | pass _ _ ih => exact ih ordered.tail
  | @meet tokens sites site here rest ih =>
    refine .cons (fun later member token first token' first' => ?_) (ih ordered)
    have mem' : token' ∈ tokens := (rest.infix_of_mem member).subset (List.mem_of_mem_head? first')
    -- the phrase that is met first begins with the next token, and all others begin with that one or a later one
    obtain ⟨rest', rfl⟩ : ∃ rest', tokens = token :: rest' := by
      obtain ⟨inside, begins⟩ := List.head?_eq_some_iff.mp first
      obtain ⟨after, rfl⟩ := here
      exact ⟨inside ++ after, by rw [begins, List.cons_append]⟩
    obtain rfl | mem' := List.mem_cons.mp mem'
    · exact refl token'
    · exact List.rel_of_pairwise_cons ordered mem'

end Walk

namespace Derivation

/-- The site of the node that a production builds. -/
def site {tier : Tier} (derivation : Derivation (.tier tier)) : Site := ⟨derivation.expr, derivation.tokens⟩

/-- The sites of all nodes that a derivation builds, in preorder. -/
def sites : {category : Category} → Derivation category → List Site
  | _, empty _ => []
  | _, filled _ all _ => all.sites
  | _, oneStatement only => only.sites
  | _, moreStatements front _ last => front.sites ++ last.sites
  | _, pass _ inside => inside.sites
  | _, group _ inside _ => inside.sites
  | _, whole@(assign _ _ value) => whole.site :: value.sites
  | _, whole@(store target _ index _ _ value) => whole.site :: (target.sites ++ (index.sites ++ value.sites))
  | _, whole@(join _ left _ right) => whole.site :: (left.sites ++ right.sites)
  | _, whole@(negate _ operand) => whole.site :: operand.sites
  | _, whole@(subscript target _ index _) => whole.site :: (target.sites ++ index.sites)
  | _, whole@(call _ _ arguments _) => whole.site :: arguments.sites
  | _, whole@(printEmpty ..) => [whole.site, ⟨.none .absent, []⟩]
  | _, whole@(print _ _ _ shown _) => whole.site :: shown.sites
  | _, whole@(list _ elements _) => whole.site :: elements.sites
  | _, whole@(dict _ entries _) => whole.site :: entries.sites
  | _, oneItem only => only.sites
  | _, moreItems front _ last => front.sites ++ last.sites
  | _, onePair key _ value => key.sites ++ value.sites
  | _, morePairs front _ key _ value => front.sites ++ (key.sites ++ value.sites)
  | _, whole@(block _ body _) => whole.site :: body.sites
  | _, whole@(ifOnly _ condition yes) => whole.site :: (condition.sites ++ yes.sites ++ [⟨.block .absent [], []⟩])
  | _, whole@(ifElse _ condition yes _ no) => whole.site :: (condition.sites ++ yes.sites ++ no.sites)
  | _, whole@(ifChain _ condition yes _ no) => whole.site :: (condition.sites ++ yes.sites ++ no.sites)
  | _, whole@(loop _ _ _ source body) => whole.site :: (source.sites ++ body.sites)
  | _, whole@(functionEmpty _ _ _ _ body) => whole.site :: body.sites
  | _, whole@(function _ _ _ _ _ body) => whole.site :: body.sites
  | _, whole@(negativeInt ..) => [whole.site]
  | _, whole@(negativeFloat ..) => [whole.site]
  | _, whole@(int _) => [whole.site]
  | _, whole@(float _) => [whole.site]
  | _, whole@(string _) => [whole.site]
  | _, whole@(truth _) => [whole.site]
  | _, whole@(falsity _) => [whole.site]
  | _, whole@(nothing _) => [whole.site]
  | _, whole@(identifier _) => [whole.site]
  | _, whole@(callEmpty ..) => [whole.site]
  | _, whole@(listEmpty ..) => [whole.site]
  | _, whole@(dictEmpty ..) => [whole.site]
  | _, oneParameter _ => []
  | _, moreParameters .. => []

/-- The nodes that are built are those of the expressions. -/
theorem preorder_sites {category : Category} (derivation : Derivation category) :
    (category.exprs derivation.meaning).flatMap Expr.preorder = derivation.sites.map Site.node := by
  induction derivation with
  | _ => simp_all [sites, meaning, Category.exprs, Expr.preorder, site, expr, List.flatMap_assoc]

/-- The nodes of a derivation are met on the way over its tokens. -/
theorem walk {category : Category} (derivation : Derivation category) : Walk derivation.tokens derivation.sites := by
  induction derivation with
  | empty => exact .past _
  | filled _ _ _ ih => exact ((Walk.past _).append ih).before _
  | oneStatement _ ih | pass _ _ ih | oneItem _ ih => exact ih
  | moreStatements _ _ _ ih ih' | moreItems _ _ _ ih ih' | onePair _ _ _ ih ih' => exact ih.append (ih'.pass _)
  | morePairs _ _ _ _ _ ih ih' ih'' => exact ih.append ((ih'.append (ih''.pass _)).pass _)
  | group _ _ _ ih => exact (ih.before _).pass _
  | assign _ _ _ ih => exact .meet List.prefix_rfl ((ih.pass _).pass _)
  | store _ _ _ _ _ _ ih ih' ih'' =>
    exact .meet List.prefix_rfl (ih.append ((ih'.append ((ih''.pass _).pass _)).pass _))
  | join _ _ _ _ ih ih' => exact .meet List.prefix_rfl (ih.append (ih'.pass _))
  | negate _ _ ih => exact .meet List.prefix_rfl (ih.pass _)
  | subscript _ _ _ _ ih ih' => exact .meet List.prefix_rfl (ih.append ((ih'.before _).pass _))
  | call _ _ _ _ ih | print _ _ _ _ _ ih => exact .meet List.prefix_rfl (((ih.before _).pass _).pass _)
  | printEmpty => exact .meet List.prefix_rfl (.meet List.nil_prefix (.past _))
  | list _ _ _ ih | dict _ _ _ ih | block _ _ _ ih => exact .meet List.prefix_rfl ((ih.before _).pass _)
  | ifOnly _ _ _ ih ih' => exact .meet List.prefix_rfl (((ih.append ih').unwritten _).pass _)
  | ifElse _ _ _ _ _ ih ih' ih'' | ifChain _ _ _ _ _ ih ih' ih'' =>
    exact .meet List.prefix_rfl (((ih.append ih').append (ih''.pass _)).pass _)
  | loop _ _ _ _ _ ih ih' => exact .meet List.prefix_rfl ((((ih.append ih').pass _).pass _).pass _)
  | functionEmpty _ _ _ _ _ ih => exact .meet List.prefix_rfl ((((ih.pass _).pass _).pass _).pass _)
  | function _ _ _ _ _ _ _ ih =>
    exact .meet List.prefix_rfl (((((Walk.past _).append (ih.pass _)).pass _).pass _).pass _)
  | oneParameter | moreParameters => exact .past _
  | _ => exact .meet List.prefix_rfl (.past _)

/-- A phrase outside the bodies of programs and blocks has a first token. -/
theorem programMark_tokens {category : Category} (derivation : Derivation category) (filled : category ≠ .body) :
    Parser.programMark derivation.tokens = derivation.mark := by
  obtain ⟨first, more, found⟩ := List.exists_cons_of_ne_nil (derivation.tokens_ne_nil filled)
  rw [mark, start, found]
  rfl

theorem site_placed {tier : Tier} {derivation : Derivation (.tier tier)}
    (marked : derivation.expr.mark = derivation.mark)
    (parts : ∀ part ∈ derivation.expr.written, part.mark ≠ .absent) : derivation.site.Placed :=
  ⟨marked.trans (derivation.programMark_tokens (by simp)).symm, parts⟩

/-- A node whose parts are all written. -/
theorem site_placed_full {tier : Tier} {derivation : Derivation (.tier tier)}
    (marked : derivation.expr.mark = derivation.mark)
    (parts : ∀ part ∈ derivation.expr.children, part.mark ≠ .absent) : derivation.site.Placed :=
  site_placed marked fun part member => parts part (derivation.expr.written_subset member)

/-- Every node is marked with the place of its phrase. -/
theorem sites_placed {category : Category} (derivation : Derivation category) :
    ∀ site ∈ derivation.sites, site.Placed := by
  induction derivation with
  | empty | oneParameter | moreParameters => exact List.forall_mem_nil _
  | filled _ _ _ ih | oneStatement _ ih | pass _ _ ih | group _ _ _ ih | oneItem _ ih => exact ih
  | moreStatements _ _ _ ih ih' | moreItems _ _ _ ih ih' | onePair _ _ _ ih ih' =>
    exact List.forall_mem_append.mpr ⟨ih, ih'⟩
  | morePairs _ _ _ _ _ ih ih' ih'' =>
    exact List.forall_mem_append.mpr ⟨ih, List.forall_mem_append.mpr ⟨ih', ih''⟩⟩
  | assign _ _ part ih | negate _ part ih | call _ _ part _ ih | print _ _ _ part _ ih | list _ part _ ih
  | dict _ part _ ih | block _ part _ ih | functionEmpty _ _ _ _ part ih | function _ _ _ _ _ part _ ih =>
    exact List.forall_mem_cons.mpr ⟨site_placed_full rfl part.marked, ih⟩
  | store target opening index closing sign value ih ih' ih'' =>
    -- the whole begins where its first part does, which may be at a bracket before the node of that part
    have same := start_store target opening index closing sign value
    refine List.forall_mem_cons.mpr ⟨site_placed_full (congrArg Mark.spot same.symm) ?_, ?_⟩
    · exact List.forall_mem_append.mpr ⟨target.marked, List.forall_mem_append.mpr ⟨index.marked, value.marked⟩⟩
    · exact List.forall_mem_append.mpr ⟨ih, List.forall_mem_append.mpr ⟨ih', ih''⟩⟩
  | join rule left sign right ih ih' =>
    have same := start_join rule left sign right
    refine List.forall_mem_cons.mpr ⟨site_placed_full (congrArg Mark.spot same.symm) ?_, ?_⟩
    · exact List.forall_mem_append.mpr ⟨left.marked, right.marked⟩
    · exact List.forall_mem_append.mpr ⟨ih, ih'⟩
  | subscript target opening index closing ih ih' =>
    have same := start_subscript target opening index closing
    refine List.forall_mem_cons.mpr ⟨site_placed_full (congrArg Mark.spot same.symm) ?_, ?_⟩
    · exact List.forall_mem_append.mpr ⟨target.marked, index.marked⟩
    · exact List.forall_mem_append.mpr ⟨ih, ih'⟩
  | printEmpty =>
    have shown : Site.Placed ⟨.none .absent, []⟩ := ⟨rfl, List.forall_mem_nil _⟩
    exact List.forall_mem_cons.mpr ⟨site_placed rfl (List.forall_mem_nil _), List.forall_mem_singleton.mpr shown⟩
  | ifOnly _ condition yes ih ih' =>
    have no : Site.Placed ⟨.block .absent [], []⟩ := ⟨rfl, List.forall_mem_nil _⟩
    refine List.forall_mem_cons.mpr ⟨site_placed rfl ?_, List.forall_mem_append.mpr ⟨?_, ?_⟩⟩
    · exact List.forall_mem_append.mpr ⟨condition.marked, yes.marked⟩
    · exact List.forall_mem_append.mpr ⟨ih, ih'⟩
    · exact List.forall_mem_singleton.mpr no
  | ifElse _ condition yes _ no ih ih' ih'' | ifChain _ condition yes _ no ih ih' ih'' =>
    refine List.forall_mem_cons.mpr ⟨site_placed_full rfl ?_, ?_⟩
    · exact List.forall_mem_append.mpr ⟨condition.marked, List.forall_mem_append.mpr ⟨yes.marked, no.marked⟩⟩
    · exact List.forall_mem_append.mpr ⟨List.forall_mem_append.mpr ⟨ih, ih'⟩, ih''⟩
  | loop _ _ _ source body ih ih' =>
    refine List.forall_mem_cons.mpr ⟨site_placed_full rfl ?_, ?_⟩
    · exact List.forall_mem_append.mpr ⟨source.marked, body.marked⟩
    · exact List.forall_mem_append.mpr ⟨ih, ih'⟩
  | _ => exact List.forall_mem_singleton.mpr (site_placed_full rfl (List.forall_mem_nil _))

/-- The sites of all nodes of a program. The phrase of the program itself is all of its text. -/
def programSites (derivation : Derivation .body) : List Site :=
  ⟨derivation.program, derivation.tokens⟩ :: derivation.sites

theorem preorder_program (derivation : Derivation .body) :
    derivation.program.preorder = derivation.programSites.map Site.node := by
  rw [programSites, List.map_cons, ← derivation.preorder_sites, program, Expr.preorder, Expr.preorderAll_eq_flatMap]
  rfl

theorem walk_program (derivation : Derivation .body) : Walk derivation.tokens derivation.programSites :=
  .meet List.prefix_rfl derivation.walk

theorem programSites_placed (derivation : Derivation .body) : ∀ site ∈ derivation.programSites, site.Placed :=
  List.forall_mem_cons.mpr ⟨⟨rfl, derivation.marked⟩, derivation.sites_placed⟩

end Derivation

end Grammar

end Corvid

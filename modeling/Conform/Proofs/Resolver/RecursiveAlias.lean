import Conform.Proofs.Resolver.Edges
import Conform.Proofs.Resolver.Retries

/-!
When a resolver reports that a declaration needs itself. It never does where declarations can be
built one after the other; that no declaration needs itself is not enough for that.
-/

namespace Conform

open Relation

theorem Sources.Closed.orderly {sources : Sources} {graph : List (DeclKey × List (List Use × Place))}
    (closed : sources.Closed graph) {file : Option FilePath} {expr : List Char} (needy : Place)
    (edges : ∀ node ∈ graph, ∀ edge ∈ node.2, edge.1 ≠ [] ∧
      (.nested ∉ edge.1 ∨ .atOnce ∈ edge.1 → node.1.place = needy ∧ edge.2 ≠ needy))
    (root : ∀ uses first, sources.NamesIn file expr uses first →
      .atOnce ∉ uses ∧ first ∈ graph.map (·.1.place)) : sources.Orderly file expr := by
  have edge {place target : Place} {uses : List Use} (among : place ∈ graph.map (·.1.place))
      (named : sources.Names place uses target) : uses ≠ [] ∧
        (.nested ∉ uses ∨ .atOnce ∈ uses → place = needy ∧ target ≠ needy) := by
    obtain ⟨⟨node, member, rfl, edge⟩, _⟩ := closed.names among named
    exact edges node member _ edge
  have inside {place : Place} (reachable : sources.Reachable file expr place) :
      place ∈ graph.map (·.1.place) := by
    obtain ⟨uses, first, named, leads⟩ := reachable
    exact closed.leads (root uses first named).2 leads
  refine ⟨fun reachable => ?_, @fun place wanted loop => ?_, fun reachable => ?_⟩
  · refine not_transGen_of_rank (· ∈ graph.map (·.1.place))
      (fun place next among ⟨uses, named, _⟩ => (closed.names among named).2)
      (fun place => if place = needy then 1 else 0) ?_ (inside reachable)
    rintro place next among ⟨uses, named, needs⟩
    obtain ⟨isNeedy, other⟩ := (edge among named).2 needs
    simp [isNeedy, other]
  · have among : place ∈ graph.map (·.1.place) := by
      rcases wanted with ⟨uses, named, atOnce⟩ | ⟨source, reachable, uses, named, _⟩
      · exact absurd atOnce (root uses place named).1
      · exact (closed.names (inside reachable) named).2
    cases loop with
    | loop alias_ => exact (edge among alias_).1 rfl
    | through alias_ => exact (edge among alias_).1 rfl
  · -- What waits is not the one that needs others, and what it waits for is.
    have waits {place target : Place} (among : place ∈ graph.map (·.1.place))
        (waits : sources.Waits place target) :
        target ∈ graph.map (·.1.place) ∧ place ≠ needy ∧ target = needy := by
      obtain ⟨_, unready, ⟨uses, named, atOnce⟩, leads, path⟩ := waits
      have within := closed.leads (closed.leads among leads) (leads_of_apart path)
      obtain ⟨rfl, other⟩ := (edge within named).2 (.inr atOnce)
      refine ⟨within, ?_, rfl⟩
      rintro rfl
      rcases path.cases_tail with same | ⟨_, _, _, apart⟩
      · exact other same.symm
      · exact apart rfl
    refine not_transGen_of_rank (· ∈ graph.map (·.1.place))
      (fun place next among waiting => (waits among waiting).1)
      (fun place => if place = needy then 0 else 1) ?_ (inside reachable)
    intro place next among waiting
    obtain ⟨_, other, isNeedy⟩ := waits among waiting
    simp [isNeedy, other]

namespace Resolver

variable {resolver : Resolver} {returned : List Validator} {expr : String} {file : Option FilePath}

theorem ordering_fits (sources : Sources) (bound : Nat) :
    (ordering sources file expr.toList).Fits bound { file := file } resolver expr.toList :=
  ⟨fun _ => ⟨rfl, [], .whole⟩, by simp⟩

/-- Whatever happens to a resolver, declarations are cached with their parents, and for references
only where they stand for loops. -/
theorem history_inOrder {options : Options} {files : FileTable}
    (history : History (fresh options files) resolver returned) :
    InOrder ⟨files, options.extensions⟩ none [] [] resolver := by
  induction history with
  | start =>
      exact ⟨by simp [Faithful, fresh], rfl, by simp [fresh], by simp [fresh], by simp, by simp, .nil⟩
  | @step resolver returned operation _ ih =>
      cases operation with
      | resolve expr file =>
          have meets := resolution_meets expr file ordering_lawful
            (ordering_retries _) (ih.reroot file expr.toList) (ordering_fits _ _) ?_
          · rcases resolve_of_meets meets with ⟨_, after, _, ended, kept⟩ |
              ⟨_, _, after, ended, kept⟩ | ⟨after, ended, kept⟩
            all_goals
              simp only [Operation.after, ended]
              exact kept.1.reroot none []
          · intro r stop _ blocked
            unfold Conduct.Outlook
            split
            · exact ⟨trivial, blocked.1, by simp [Conduct.top, Follows]⟩
            · trivial
      | setStrict strict =>
          simp only [Operation.after, setStrict]
          split
          · exact ih
          · exact ⟨ih.faithful, ih.sources_eq, by simp, by simp, by simp, by simp, .nil⟩
      | clear =>
          exact ⟨by simp [Faithful, Operation.after, clear], ih.sources_eq,
            by simp [Operation.after, clear], by simp [Operation.after, clear], by simp, by simp, .nil⟩

/-- Where declarations can be built one after the other, they are. -/
theorem resolve_orderly {sources : Sources} (state : InOrder sources none [] [] resolver)
    (orderly : sources.Orderly file expr.toList) (name : String) :
    (resolver.resolve expr file).1 ≠ some (.error (.recursiveAlias name)) := by
  have runs (r : Resolver) (state : InOrder sources file expr.toList [] r) :=
    ordering_lawful.governs (resolver.nestingLimit expr.toList) { file := file } expr.toList r
      ⟨state, ordering_fits sources _⟩
  have meets := inOrder_orderly orderly (resolver.nestingLimit expr.toList) none [] []
    (fun r state => (runs r state).mono (fun _ _ kept => ⟨kept.1, kept.2.1, by simp⟩)
      fun _ _ kept => kept)
    (by simp) (resolver.declarationLimit expr.toList + 1) (state.reroot file expr.toList) (by simp)
  rcases resolve_of_meets meets with ⟨_, after, _, ended, _⟩ | ⟨_, _, after, ended, stops⟩ |
    ⟨after, ended, _⟩
  · simp [ended]
  · rw [ended]
    rintro ⟨⟩
    exact stops name _ rfl
  · simp [ended]

/-- A fresh resolver finds no recursive alias, as long as no declaration that the expression leads to
needs itself, stands for a loop where it is needed at once, or has to wait for itself. -/
theorem fresh_resolve_ne_recursiveAlias (options : Options) (files : FileTable) (expr : String)
    (file : Option FilePath)
    (orderly : (Sources.mk files options.extensions).Orderly file expr.toList) (name : String) :
    ((fresh options files).resolve expr file).1 ≠ some (.error (.recursiveAlias name)) :=
  resolve_orderly (history_inOrder .start) orderly name

def pairFile : FilePath := ⟨"/p.ts"⟩

def pair : FileTable :=
  .ofList [(pairFile, .text "interface X\x7by?:Y\x7d interface Y extends X\x7b\x7d")]

def pairGraph : List (DeclKey × List (List Use × Place)) :=
  [(⟨"X", pairFile⟩, [([.nested], DeclKey.place ⟨"Y", pairFile⟩)]),
    (⟨"Y", pairFile⟩, [([.atOnce], DeclKey.place ⟨"X", pairFile⟩)])]

theorem pair_closed : Sources.Closed ⟨pair, [".ts", ".tsx", ".d.ts"]⟩ pairGraph where
  edges node member := ⟨4, by revert node; decide +kernel⟩
  inside := by decide +kernel

theorem pair_orderly :
    (Sources.mk pair [".ts", ".tsx", ".d.ts"]).Orderly (some pairFile) "X".toList := by
  refine pair_closed.orderly (DeclKey.place ⟨"Y", pairFile⟩) (by decide) fun uses first named => ?_
  have computed : Sources.edgesIn ⟨pair, [".ts", ".tsx", ".d.ts"]⟩ 4 pairFile "X".toList =
      some [([], DeclKey.place ⟨"X", pairFile⟩)] := by decide +kernel
  obtain ⟨rfl, rfl⟩ := Prod.mk.inj (List.mem_singleton.mp (Sources.mem_edgesIn computed named))
  simp [pairGraph]

theorem fresh_resolve_ne_recursiveAlias_pair :
    ((fresh {} pair).resolve "X" (some pairFile)).1 ≠ some (.error (.recursiveAlias "X")) :=
  fresh_resolve_ne_recursiveAlias {} pair "X" (some pairFile) pair_orderly "X"

def siblingsFile : FilePath := ⟨"/s.ts"⟩

def siblings : FileTable :=
  .ofList [(siblingsFile, .text ("interface P\x7be?:E;f?:F\x7d " ++
    "interface E extends P\x7b\x7d interface F extends P\x7b\x7d"))]

def siblingsGraph : List (DeclKey × List (List Use × Place)) :=
  [(⟨"P", siblingsFile⟩, [([.nested], DeclKey.place ⟨"E", siblingsFile⟩),
      ([.nested], DeclKey.place ⟨"F", siblingsFile⟩)]),
    (⟨"E", siblingsFile⟩, [([.atOnce], DeclKey.place ⟨"P", siblingsFile⟩)]),
    (⟨"F", siblingsFile⟩, [([.atOnce], DeclKey.place ⟨"P", siblingsFile⟩)])]

theorem siblings_closed : Sources.Closed ⟨siblings, [".ts", ".tsx", ".d.ts"]⟩ siblingsGraph where
  edges node member := ⟨4, by revert node; decide +kernel⟩
  inside := by decide +kernel

/-- Needs without circles are not enough. Each child needs the parent, and is built on the way to it;
with one child built first, the other one is needed first again. -/
theorem recursiveAlias_without_cycle :
    ¬∀ (options : Options) (files : FileTable) (expr : String) (file : Option FilePath),
      (∀ place, Sources.Reachable ⟨files, options.extensions⟩ file expr.toList place →
        ¬TransGen (Sources.Needs ⟨files, options.extensions⟩) place place) →
      ∀ name, ((fresh options files).resolve expr file).1 ≠ some (.error (.recursiveAlias name)) := by
  intro claim
  have failed : faultOf ((fresh {} siblings).resolve "P" (some siblingsFile)).1 =
      some (.recursiveAlias "P") := by decide +kernel
  refine claim {} siblings "P" (some siblingsFile) ?_ "P" (eq_of_faultOf failed)
  rintro place ⟨uses, first, named, leads⟩
  have computed : Sources.edgesIn ⟨siblings, [".ts", ".tsx", ".d.ts"]⟩ 4 siblingsFile "P".toList =
      some [([], DeclKey.place ⟨"P", siblingsFile⟩)] := by decide +kernel
  have start : first = DeclKey.place ⟨"P", siblingsFile⟩ := by
    simpa using congrArg Prod.snd (List.mem_singleton.mp (Sources.mem_edgesIn computed named))
  have among := siblings_closed.leads (by simp [start, siblingsGraph]) leads
  refine Sources.not_transGen_of_rank (· ∈ siblingsGraph.map (·.1.place))
    (fun place next among ⟨uses, named, _⟩ => (siblings_closed.names among named).2)
    (fun place => if place.1 = "P" then 0 else 1) ?_ among
  rintro place next among ⟨uses, named, direct⟩
  obtain ⟨⟨node, member, rfl, edge⟩, _⟩ := siblings_closed.names among named
  simp only [siblingsGraph, List.mem_cons, List.not_mem_nil, or_false] at member
  rcases member with rfl | rfl | rfl
  · simp only [List.mem_cons, Prod.mk.injEq, List.not_mem_nil, or_false] at edge
    rcases edge with ⟨rfl, _⟩ | ⟨rfl, _⟩ <;> simp at direct
  · simp only [List.mem_singleton, Prod.mk.injEq] at edge
    simp [edge.2, DeclKey.place]
  · simp only [List.mem_singleton, Prod.mk.injEq] at edge
    simp [edge.2, DeclKey.place]

end Resolver

end Conform

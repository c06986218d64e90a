import TdSyntax.Include.Loading
import TdSyntax.Include.NameTable
import TdSyntax.Proofs.Include.Found

/-!
# Loading follows every include statement once

While a graph is loaded, its files are those that are known so far, and the statements
that wait are those that have not been followed.  So the loaded graph has each file once,
in the order of their discovery, and what came of each statement.
-/

namespace TdSyntax

namespace IncludeSite

def waiting (site : IncludeSite) : Nat × Path × IncludeDirective :=
  (site.number, site.file.path, site.directive)

end IncludeSite

namespace Resolver

/-- What came of an include statement: a file with the canonical path of the one that it
leads to, or the failure. -/
inductive Settles (resolver : Resolver Id) (files : List SourceFile) (site : IncludeSite) :
    Inclusion → Prop where
  | failed {error : ResolveError} (h : resolver.resolveAt site = .error error) :
      Settles resolver files site ⟨site.number, site.directive, .failed error⟩
  | reached {file known : SourceFile} {target : Nat} (isNew : Bool)
      (h : resolver.resolveAt site = .ok file) (hknown : files[target]? = some known)
      (hsame : resolver.canonical known = resolver.canonical file) :
      Settles resolver files site ⟨site.number, site.directive, .reached target isNew⟩

variable {resolver : Resolver Id} {files more : List SourceFile} {site : IncludeSite}
  {inclusion : Inclusion}

theorem Settles.mono (h : resolver.Settles files site inclusion) (hextends : files <+: more) :
    resolver.Settles more site inclusion := by
  obtain ⟨others, rfl⟩ := hextends
  cases h with
  | failed h => exact .failed h
  | reached isNew h hknown hsame =>
      obtain ⟨hlt, -⟩ := List.getElem?_eq_some_iff.1 hknown
      exact .reached isNew h (by rw [List.getElem?_append_left hlt, hknown]) hsame

def keyOf (resolver : Resolver Id) (file : SourceFile) : String :=
  (Path.key (resolver.identity file.path))

theorem keyOf_eq_iff {first second : SourceFile} :
    resolver.keyOf first = resolver.keyOf second ↔
      resolver.canonical first = resolver.canonical second :=
  Path.key_eq_key_iff

theorem known_of_findIdx?_some {file : SourceFile} {target : Nat}
    (h : (files.map resolver.keyOf).findIdx? (· == resolver.keyOf file) = some target) :
    ∃ known, files[target]? = some known ∧
      resolver.canonical known = resolver.canonical file := by
  obtain ⟨hlt, hsame, -⟩ := List.findIdx?_eq_some_iff_getElem.1 h
  rw [List.getElem_map, beq_iff_eq] at hsame
  rw [List.length_map] at hlt
  exact ⟨files[target], List.getElem?_eq_getElem hlt, keyOf_eq_iff.1 hsame⟩

theorem not_known_of_findIdx?_none {file : SourceFile}
    (h : (files.map resolver.keyOf).findIdx? (· == resolver.keyOf file) = none) :
    resolver.canonical file ∉ files.map resolver.canonical := by
  intro hmem
  obtain ⟨known, hknown, hsame⟩ := List.mem_map.1 hmem
  have hother := List.findIdx?_eq_none_iff.1 h _ (List.mem_map_of_mem hknown)
  rw [keyOf_eq_iff.2 hsame, beq_self_eq_true] at hother
  cases hother

end Resolver

namespace Loading

open Resolver

variable {resolver : Resolver Id} {limit : Nat} {graph : IncludeGraph} {keys : List String}
  {site : IncludeSite} {rest : List (Nat × Path × IncludeDirective)} {file : SourceFile}

theorem lift_bind {α β : Type} (value : Id α) (next : α → ExceptT Fault Id β) :
    ((instMonadLiftTOfMonadLift Id Id (ExceptT Fault Id)).monadLift value) >>= next = next value :=
  rfl

theorem ok_bind {α β : Type} (value : α) (next : α → ExceptT Fault Id β) :
    (liftM (Except.ok value : Except Fault α) : ExceptT Fault Id α) >>= next = next value :=
  rfl

def result (resolver : Resolver Id) (limit : Nat) (loading : Loading) :
    Except Fault IncludeGraph :=
  loading.finish resolver limit

theorem pending_eq (number : Nat) (file : SourceFile) :
    pending number file = .ok ((IncludeSite.ofFile file number).map IncludeSite.waiting) := by
  rw [pending, file.includeDirectives_eq, IncludeSite.ofFile, List.map_map]
  rfl

theorem result_nil : result resolver limit ⟨graph, keys, []⟩ = .ok graph := by
  rw [result, finish]
  rfl

theorem result_failed {error : ResolveError} (h : resolver.resolveAt site = .error error) :
    result resolver limit ⟨graph, keys, site.waiting :: rest⟩ =
      result resolver limit
        (record ⟨graph, keys, rest⟩ ⟨site.number, site.directive, .failed error⟩) := by
  rw [resolveAt] at h
  rw [result, IncludeSite.waiting, finish]
  simp only [h]
  rfl

theorem result_known {target : Nat} (h : resolver.resolveAt site = .ok file)
    (hknown : keys.findIdx? (· == resolver.keyOf file) = some target) :
    result resolver limit ⟨graph, keys, site.waiting :: rest⟩ =
      result resolver limit
        (record ⟨graph, keys, rest⟩ ⟨site.number, site.directive, .reached target false⟩) := by
  rw [resolveAt] at h
  rw [keyOf] at hknown
  rw [result, IncludeSite.waiting, finish]
  simp only [h, lift_bind, hknown]
  rfl

theorem result_new (h : resolver.resolveAt site = .ok file)
    (hnew : keys.findIdx? (· == resolver.keyOf file) = none) :
    result resolver (limit + 1) ⟨graph, keys, site.waiting :: rest⟩ =
      result resolver limit
        ((record ⟨graph, keys, rest⟩
          ⟨site.number, site.directive, .reached keys.length true⟩).addFile file
            (resolver.keyOf file)
            ((IncludeSite.ofFile file keys.length).map IncludeSite.waiting)) := by
  rw [resolveAt] at h
  rw [keyOf] at hnew
  rw [result, IncludeSite.waiting, finish]
  simp only [h, lift_bind, hnew, pending_eq, ok_bind]
  rfl

/-- The state of loading when `count` include statements have been followed. -/
structure After (resolver : Resolver Id) (root : SourceFile) (count : Nat) (loading : Loading) :
    Prop where
  files : loading.graph.files = resolver.found root count
  keys : loading.keys = (resolver.found root count).map resolver.keyOf
  waiting : loading.waiting =
    ((IncludeSite.ofFiles (resolver.found root count)).drop count).map IncludeSite.waiting
  inclusions : List.Forall₂ (resolver.Settles (resolver.found root count))
    ((IncludeSite.ofFiles (resolver.found root count)).take count) loading.graph.inclusions

namespace After

variable {root : SourceFile} {count : Nat} {loading : Loading} {inclusion : Inclusion}

theorem ofRoot (resolver : Resolver Id) (root : SourceFile) :
    ∃ loading, Loading.ofRoot root (resolver.identity root.path) = .ok loading ∧
      After resolver root 0 loading := by
  refine ⟨_, by rw [Loading.ofRoot, pending_eq]; rfl, ⟨rfl, rfl, ?_, .nil⟩⟩
  rw [Resolver.found, IncludeSite.ofFiles_singleton]
  rfl

theorem inclusions_succ (h : After resolver root count loading)
    (hsite : (IncludeSite.ofFiles (resolver.found root count))[count]? = some site)
    (hsettles : resolver.Settles (resolver.found root (count + 1)) site inclusion) :
    List.Forall₂ (resolver.Settles (resolver.found root (count + 1)))
      ((IncludeSite.ofFiles (resolver.found root (count + 1))).take (count + 1))
      (loading.graph.inclusions ++ [inclusion]) := by
  rw [take_ofFiles_succ, hsite]
  apply List.rel_append
  · exact h.inclusions.imp fun _ _ hearlier => hearlier.mono (prefix_found_succ count)
  · exact .cons hsettles .nil

theorem waiting_eq_cons (h : After resolver root count loading)
    (hsite : (IncludeSite.ofFiles (resolver.found root count))[count]? = some site) :
    loading.waiting = site.waiting ::
      ((IncludeSite.ofFiles (resolver.found root count)).drop (count + 1)).map
        IncludeSite.waiting := by
  obtain ⟨hlt, hget⟩ := List.getElem?_eq_some_iff.1 hsite
  rw [h.waiting, List.drop_eq_getElem_cons hlt, hget, List.map_cons]

theorem record (h : After resolver root count loading)
    (hsite : (IncludeSite.ofFiles (resolver.found root count))[count]? = some site)
    (hsame : resolver.found root (count + 1) = resolver.found root count)
    (hsettles : resolver.Settles (resolver.found root count) site inclusion) :
    After resolver root (count + 1) (Loading.record ⟨loading.graph, loading.keys,
      ((IncludeSite.ofFiles (resolver.found root count)).drop (count + 1)).map
        IncludeSite.waiting⟩ inclusion) where
  files := by rw [hsame]; exact h.files
  keys := by rw [hsame]; exact h.keys
  waiting := by rw [hsame]; rfl
  inclusions := h.inclusions_succ hsite (hsame ▸ hsettles)

theorem addFile (h : After resolver root count loading)
    (hsite : (IncludeSite.ofFiles (resolver.found root count))[count]? = some site)
    (hnew : resolver.found root (count + 1) = resolver.found root count ++ [file])
    (hsettles : resolver.Settles (resolver.found root (count + 1)) site inclusion) :
    After resolver root (count + 1) ((Loading.record ⟨loading.graph, loading.keys,
      ((IncludeSite.ofFiles (resolver.found root count)).drop (count + 1)).map
        IncludeSite.waiting⟩ inclusion).addFile file (resolver.keyOf file)
          ((IncludeSite.ofFile file (resolver.found root count).length).map
            IncludeSite.waiting)) where
  files := by
    rw [hnew, ← h.files]
    rfl
  keys := by
    rw [hnew, List.map_append, ← h.keys]
    rfl
  waiting := by
    obtain ⟨hlt, -⟩ := List.getElem?_eq_some_iff.1 hsite
    rw [hnew, IncludeSite.ofFiles_append, List.drop_append_of_le_length hlt, List.map_append]
    rfl
  inclusions := h.inclusions_succ hsite hsettles

/-- Following the next statement is one step of loading.  It takes from the limit what it
adds to the files. -/
theorem step (h : After resolver root count loading)
    (hsite : (IncludeSite.ofFiles (resolver.found root count))[count]? = some site) :
    ∃ next, After resolver root (count + 1) next ∧ ∀ limit,
      (resolver.found root (count + 1)).length ≤ limit + (resolver.found root count).length →
        ∃ less, less + (resolver.found root (count + 1)).length =
            limit + (resolver.found root count).length ∧
          loading.result resolver limit = next.result resolver less := by
  have hwaiting := h.waiting_eq_cons hsite
  have hkeys := h.keys
  have hbind : (IncludeSite.ofFiles (resolver.found root count))[count]?.bind resolver.target? =
      resolver.target? site := by
    rw [hsite, Option.bind_some]
  cases hresolve : resolver.resolveAt site with
  | error error =>
      have htarget : resolver.target? site = none := by rw [target?, hresolve]; rfl
      have hsame := found_of_none (hbind.trans htarget)
      refine ⟨_, h.record hsite hsame (.failed hresolve), fun limit _ => ⟨limit, by rw [hsame], ?_⟩⟩
      rw [← result_failed hresolve, ← hwaiting]
  | ok file =>
      have hfound := found_of_some (hbind.trans (target?_eq_some.2 hresolve))
      cases hknown : ((resolver.found root count).map resolver.keyOf).findIdx?
          (· == resolver.keyOf file) with
      | some target =>
          obtain ⟨known, hfile, hsameFile⟩ := known_of_findIdx?_some hknown
          have hmem := List.mem_map.2 ⟨known, List.mem_of_getElem? hfile, hsameFile⟩
          have hsame : resolver.found root (count + 1) = resolver.found root count := by
            rw [hfound, add, if_pos hmem]
          refine ⟨_, h.record hsite hsame (.reached false hresolve hfile hsameFile),
            fun limit _ => ⟨limit, by rw [hsame], ?_⟩⟩
          rw [← result_known hresolve (hkeys ▸ hknown), ← hwaiting]
      | none =>
          have hnew : resolver.found root (count + 1) = resolver.found root count ++ [file] := by
            rw [hfound, add, if_neg (not_known_of_findIdx?_none hknown)]
          have hlast : (resolver.found root (count + 1))[(resolver.found root count).length]? =
              some file := by
            rw [hnew, List.getElem?_concat_length]
          refine ⟨_, h.addFile hsite hnew (.reached true hresolve hlast rfl), fun limit hlimit => ?_⟩
          rw [hnew, List.length_append, List.length_singleton] at hlimit ⊢
          obtain ⟨less, rfl⟩ : ∃ less, limit = less + 1 := ⟨limit - 1, by omega⟩
          refine ⟨less, by omega, ?_⟩
          have hlength : loading.keys.length = (resolver.found root count).length := by
            rw [hkeys, List.length_map]
          rw [← hlength, ← result_new hresolve (hkeys ▸ hknown), ← hwaiting]

theorem result_of_all_followed (h : After resolver root count loading)
    (hall : (IncludeSite.ofFiles (resolver.found root count)).length ≤ count) (limit : Nat) :
    loading.result resolver limit = .ok loading.graph := by
  have hwaiting : loading.waiting = [] := by
    rw [h.waiting, List.drop_eq_nil_of_le hall, List.map_nil]
  obtain ⟨graph, keys, waiting⟩ := loading
  obtain rfl : waiting = [] := hwaiting
  exact result_nil

theorem idle (h : After resolver root count loading)
    (hnone : (IncludeSite.ofFiles (resolver.found root count))[count]? = none) :
    After resolver root (count + 1) loading := by
  have hsame : resolver.found root (count + 1) = resolver.found root count :=
    found_of_none (by rw [hnone, Option.bind_none])
  have hall := List.getElem?_eq_none_iff.1 hnone
  constructor
  · rw [hsame, h.files]
  · rw [hsame, h.keys]
  · rw [hsame, h.waiting, List.drop_eq_nil_of_le hall, List.drop_eq_nil_of_le (by omega)]
  · have hinclusions := h.inclusions
    rw [List.take_of_length_le hall] at hinclusions
    rwa [hsame, List.take_of_length_le (by omega)]

theorem run (steps : Nat) (h : After resolver root count loading)
    (hall : (IncludeSite.ofFiles (resolver.found root (count + steps))).length ≤ count + steps) :
    ∃ final, After resolver root (count + steps) final ∧ ∀ limit,
      (resolver.found root (count + steps)).length ≤ limit + (resolver.found root count).length →
        loading.result resolver limit = .ok final.graph := by
  induction steps generalizing count loading with
  | zero => exact ⟨loading, h, fun limit _ => h.result_of_all_followed hall limit⟩
  | succ steps ih =>
      rw [← Nat.add_assoc, Nat.add_right_comm] at hall ⊢
      cases hsite : (IncludeSite.ofFiles (resolver.found root count))[count]? with
      | none =>
          obtain ⟨final, hfinal, hresult⟩ := ih (h.idle hsite) hall
          rw [found_of_none (by rw [hsite, Option.bind_none])] at hresult
          exact ⟨final, hfinal, hresult⟩
      | some site =>
          obtain ⟨next, hnext, hstep⟩ := h.step hsite
          obtain ⟨final, hfinal, hresult⟩ := ih hnext hall
          refine ⟨final, hfinal, fun limit hlimit => ?_⟩
          have hgrown : (resolver.found root (count + 1)).length ≤
              (resolver.found root (count + 1 + steps)).length :=
            (prefix_found root (Nat.le_add_right _ _)).length_le
          obtain ⟨less, hless, hequal⟩ := hstep limit (by omega)
          rw [hequal, hresult less (by omega)]

end After

end Loading

end TdSyntax

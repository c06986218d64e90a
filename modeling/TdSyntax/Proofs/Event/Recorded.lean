import Mathlib.Data.List.Nodup
import Mathlib.Data.List.Perm.Subperm
import TdSyntax.Proofs.Event.Calls

/-!
# The order of a log

The events of a log stand in the order in which they were written, and they are replayed in
another one: at the first start of a chain of links, all starts along the chain are replayed,
the last one first, and nothing is replayed where the others stand.  So the order in which a
log is replayed falls into groups, one for each place.
-/

namespace TdSyntax

structure Mark where
  place : Nat
  event : Event
  deriving DecidableEq

namespace Mark

def expand (old : Mark) (new word : List Mark) : List Mark :=
  word.flatMap fun mark => if mark = old then new else [mark]

variable {old mark : Mark} {new word front back : List Mark}

theorem mem_expand :
    mark ∈ expand old new word ↔ (mark ∈ word ∧ mark ≠ old) ∨ (old ∈ word ∧ mark ∈ new) := by
  simp only [expand, List.mem_flatMap]
  constructor
  · rintro ⟨other, hother, hmark⟩
    split at hmark
    case isTrue heq => exact .inr ⟨heq ▸ hother, hmark⟩
    case isFalse hne =>
      obtain rfl := List.mem_singleton.1 hmark
      exact .inl ⟨hother, hne⟩
  · rintro (⟨hmark, hne⟩ | ⟨hold, hmark⟩)
    · exact ⟨mark, hmark, by simp [hne]⟩
    · exact ⟨old, hold, by simpa using hmark⟩

theorem expand_of_notMem (h : old ∉ word) : expand old new word = word := by
  induction word with
  | nil => rfl
  | cons first rest ih =>
      have hfirst : first ≠ old := fun heq => h (heq ▸ List.mem_cons_self)
      have hrest := ih fun hmem => h (List.mem_cons_of_mem _ hmem)
      simp only [expand] at hrest
      simp [expand, hfirst, hrest]

theorem expand_append (word more : List Mark) :
    expand old new (word ++ more) = expand old new word ++ expand old new more :=
  List.flatMap_append

theorem expand_flatten (words : List (List Mark)) :
    (words.map (expand old new)).flatten = expand old new words.flatten := by
  induction words with
  | nil => rfl
  | cons word words ih => simp [expand_append, ih]

theorem reverse_expand (word : List Mark) :
    (expand old new word).reverse = expand old new.reverse word.reverse := by
  simp only [expand, List.reverse_flatMap]
  congr 1
  funext mark
  simp only [Function.comp_apply]
  split <;> rfl

theorem expand_middle (h : ((front ++ old :: back).map place).Nodup) :
    expand old new (front ++ old :: back) = front ++ (new ++ back) := by
  have hnodup := List.nodup_middle.1 h.of_map
  have hfront : old ∉ front := fun hmem =>
    (List.nodup_cons.1 hnodup).1 (List.mem_append_left _ hmem)
  have hback : old ∉ back := fun hmem =>
    (List.nodup_cons.1 hnodup).1 (List.mem_append_right _ hmem)
  have hcons : expand old new (old :: back) = new ++ expand old new back := by simp [expand]
  rw [expand_append, hcons, expand_of_notMem hfront, expand_of_notMem hback]

end Mark

namespace Log

/-- The starts along the links from a place. -/
inductive Chain : (place : Nat) → List Mark → Prop
  | last {place : Nat} {kind : Kind} : Chain place [⟨place, .start kind none⟩]
  | link {place distance : Nat} {kind : Kind} {marks : List Mark}
      (h : Chain (place + distance) marks) :
      Chain place (⟨place, .start kind (some distance)⟩ :: marks)

/-- What is replayed at a place, behind all that has been replayed earlier. -/
inductive Group (earlier : List Mark) (place : Nat) : List Mark → Prop
  | moved (h : ∃ mark ∈ earlier, mark.place = place) : Group earlier place []
  | token (content : Token) : Group earlier place [⟨place, .token content⟩]
  | finish : Group earlier place [⟨place, .finish⟩]
  | chain {marks : List Mark} (h : Chain place marks) : Group earlier place marks.reverse

def Grouped (groups : List (List Mark)) : Prop :=
  ∀ before group after, groups = before ++ group :: after →
    Group before.flatten before.length group

def Ordered (count : Nat) (word : List Mark) : Prop :=
  ∃ groups, Grouped groups ∧ groups.flatten = word ∧ groups.length = count

/-- The events in the order in which they are replayed. -/
structure Recorded (events : Array Event) (word : List Mark) : Prop where
  ordered : Ordered events.size word
  nodup : (word.map Mark.place).Nodup
  shows : ∀ mark ∈ word, events[mark.place]? = some mark.event

/-! ## Replaying the groups -/

/-- What is left of some events when those of some marks have been blanked. -/
structure Blanked (events : Array Event) (gone : List Mark) (left : Array Event) : Prop where
  size : left.size = events.size
  blank : ∀ mark ∈ gone, left[mark.place]? = some .blank
  other : ∀ place, (∀ mark ∈ gone, mark.place ≠ place) → left[place]? = events[place]?

namespace Blanked

variable {events left : Array Event} {gone : List Mark}

theorem congr (h : Blanked events gone left) {same : List Mark}
    (hsame : ∀ mark, mark ∈ same ↔ mark ∈ gone) : Blanked events same left :=
  ⟨h.size, fun mark hmark => h.blank mark ((hsame mark).1 hmark),
    fun place hplace => h.other place fun mark hmark => hplace mark ((hsame mark).2 hmark)⟩

theorem set (h : Blanked events gone left) {mark : Mark} (hmark : mark.place < events.size) :
    Blanked events (gone ++ [mark]) (left.set! mark.place .blank) := by
  have hsize := h.size
  refine ⟨by simpa using hsize, fun other hother => ?_, fun place hplace => ?_⟩
  · by_cases heq : mark.place = other.place
    · simp [← heq, hsize, hmark]
    · have hgone : other ∈ gone := by
        rcases List.mem_append.1 hother with hgone | hlast
        · exact hgone
        · exact absurd (List.mem_singleton.1 hlast ▸ rfl) heq
      simpa [heq] using h.blank other hgone
  · have hne : mark.place ≠ place := hplace mark (by simp)
    simpa [hne] using h.other place fun other hother => hplace other (by simp [hother])

theorem set_again (h : Blanked events gone left) {place : Nat}
    (hplace : ∃ mark ∈ gone, mark.place = place) :
    left[place]? = some .blank ∧ Blanked events gone (left.set! place .blank) := by
  obtain ⟨mark, hmark, rfl⟩ := hplace
  have hblank := h.blank mark hmark
  have hlt : mark.place < left.size := (Array.getElem?_eq_some_iff.1 hblank).1
  have hagain := h.set (h.size ▸ hlt)
  refine ⟨hblank, hagain.congr fun other => ?_⟩
  constructor
  · exact fun hother => List.mem_append_left _ hother
  · intro hother
    rcases List.mem_append.1 hother with hgone | hlast
    · exact hgone
    · exact List.mem_singleton.1 hlast ▸ hmark

end Blanked

/-- When the events of some marks are gone, those of others still stand where they were. -/
structure Due (events : Array Event) (gone due : List Mark) : Prop where
  shows : ∀ mark ∈ due, events[mark.place]? = some mark.event
  named : ∀ mark ∈ due, mark.event.Named
  nodup : ((gone ++ due).map Mark.place).Nodup

namespace Due

variable {events left : Array Event} {gone due more : List Mark} {mark : Mark}

theorem front (h : Due events gone (due ++ more)) : Due events gone due := by
  refine ⟨fun mark hmark => h.shows mark (List.mem_append_left _ hmark),
    fun mark hmark => h.named mark (List.mem_append_left _ hmark),
    h.nodup.sublist (List.Sublist.map _ ?_)⟩
  exact (List.sublist_append_left _ _).append_left gone

theorem back (h : Due events gone (due ++ more)) : Due events (gone ++ due) more :=
  ⟨fun mark hmark => h.shows mark (List.mem_append_right _ hmark),
    fun mark hmark => h.named mark (List.mem_append_right _ hmark),
    by simpa using h.nodup⟩

theorem tail (h : Due events gone (mark :: due)) : Due events (gone ++ [mark]) due :=
  @back events gone [mark] due h

theorem reverse (h : Due events gone due.reverse) : Due events gone due := by
  have hperm : (gone ++ due.reverse).Perm (gone ++ due) := due.reverse_perm.append_left gone
  exact ⟨fun mark hmark => h.shows mark (List.mem_reverse.2 hmark),
    fun mark hmark => h.named mark (List.mem_reverse.2 hmark),
    (hperm.map Mark.place).nodup_iff.1 h.nodup⟩

theorem length_le (h : Due events gone due) : due.length ≤ events.size := by
  have hplaces : (due.map Mark.place).Nodup :=
    h.nodup.sublist (List.Sublist.map _ (List.sublist_append_right _ _))
  have hbound : due.map Mark.place ⊆ List.range events.size := by
    intro place hplace
    obtain ⟨mark, hmark, rfl⟩ := List.mem_map.1 hplace
    exact List.mem_range.2 (Array.getElem?_eq_some_iff.1 (h.shows mark hmark)).1
  simpa using (List.subperm_of_subset hplaces hbound).length_le

theorem first (hdue : Due events gone (mark :: due)) (h : Blanked events gone left) :
    left[mark.place]? = some mark.event ∧
      Blanked events (gone ++ [mark]) (left.set! mark.place .blank) := by
  have hshown := hdue.shows mark List.mem_cons_self
  refine ⟨?_, h.set (Array.getElem?_eq_some_iff.1 hshown).1⟩
  rw [← hshown]
  refine h.other _ fun other hother heq => ?_
  have hnodup := hdue.nodup
  rw [List.map_append, List.map_cons, List.nodup_middle] at hnodup
  exact (List.nodup_cons.1 hnodup).1
    (List.mem_append_left _ (List.mem_map.2 ⟨other, hother, heq⟩))

end Due

theorem Chain.followed {events left : Array Event} {gone marks : List Mark} {target : Nat}
    (hchain : Chain target marks) (h : Blanked events gone left) (hdue : Due events gone marks)
    {place distance limit : Nat} (htarget : place + distance = target)
    (hlimit : marks.length ≤ limit) (kinds : List Kind) :
    ∃ names chained,
      chain left kinds place (some distance) limit = .ok (names ++ kinds, chained) ∧
        names.map .startNode = marks.reverse.map (fun mark => mark.event.call) ∧
          Blanked events (gone ++ marks) chained := by
  induction hchain generalizing gone left place distance limit kinds with
  | @last target kind =>
      obtain ⟨limit, rfl⟩ := Nat.exists_eq_add_of_le' hlimit
      obtain ⟨hevent, hblanked⟩ := hdue.first h
      have hkind : kind ≠ .tombstone := hdue.named _ List.mem_cons_self
      refine ⟨[kind], left.set! target .blank, ?_, rfl, hblanked⟩
      simp only [List.length_singleton, chain, htarget, hevent, if_neg hkind,
        List.cons_append, List.nil_append]
  | @link target next kind marks hrest ih =>
      obtain ⟨limit, rfl⟩ := Nat.exists_eq_add_of_le' hlimit
      obtain ⟨hevent, hblanked⟩ := hdue.first h
      have hkind : kind ≠ .tombstone := hdue.named _ List.mem_cons_self
      obtain ⟨names, chained, hfollowed, hnames, hall⟩ :=
        ih hblanked hdue.tail rfl (Nat.le_add_left _ limit) (kind :: kinds)
      refine ⟨names ++ [kind], chained, ?_, ?_, by simpa using hall⟩
      · rw [List.length_cons, ← Nat.add_assoc]
        simp only [chain, htarget, hevent, if_neg hkind, hfollowed, List.append_assoc,
          List.cons_append, List.nil_append]
      · simp [hnames, Event.call]

private theorem callsAt_chain {events left : Array Event} {gone marks : List Mark} {place : Nat}
    (hchain : Chain place marks) (h : Blanked events gone left) (hdue : Due events gone marks) :
    ∃ next, callsAt left place = .ok (marks.reverse.map fun mark => mark.event.call, next) ∧
      Blanked events (gone ++ marks) next := by
  cases hchain with
  | @last _ kind =>
      obtain ⟨hevent, hblanked⟩ := hdue.first h
      have hkind : kind ≠ .tombstone := hdue.named _ List.mem_cons_self
      exact ⟨_, by simp only [callsAt, hevent, if_neg hkind, chain]; rfl, hblanked⟩
  | @link _ distance kind rest hrest =>
      obtain ⟨hevent, hblanked⟩ := hdue.first h
      have hkind : kind ≠ .tombstone := hdue.named _ List.mem_cons_self
      obtain ⟨names, chained, hfollowed, hnames, hall⟩ :=
        hrest.followed hblanked hdue.tail rfl (hblanked.size ▸ hdue.tail.length_le) [kind]
      refine ⟨chained, ?_, by simpa using hall⟩
      simp only [callsAt, hevent, if_neg hkind, hfollowed]
      simp [bind, Except.bind, pure, Except.pure, hnames, Event.call]

theorem Group.called {events left : Array Event} {earlier group : List Mark} {place : Nat}
    (hgroup : Group earlier place group) (h : Blanked events earlier left)
    (hdue : Due events earlier group) :
    ∃ next, callsAt left place = .ok (group.map fun mark => mark.event.call, next) ∧
      Blanked events (earlier ++ group) next := by
  cases hgroup with
  | moved hmoved =>
      obtain ⟨hblank, hagain⟩ := h.set_again hmoved
      rw [List.append_nil]
      exact ⟨_, by simp only [callsAt, hblank, Event.blank, if_true]; rfl, hagain⟩
  | token content =>
      obtain ⟨hevent, hblanked⟩ := hdue.first h
      exact ⟨_, by simp only [callsAt, hevent]; rfl, hblanked⟩
  | finish =>
      obtain ⟨hevent, hblanked⟩ := hdue.first h
      exact ⟨_, by simp only [callsAt, hevent]; rfl, hblanked⟩
  | @chain marks hchain =>
      obtain ⟨next, hat, hblanked⟩ := callsAt_chain hchain h hdue.reverse
      exact ⟨next, hat, hblanked.congr fun mark => by simp⟩

theorem Grouped.called {events left : Array Event} {done rest : List (List Mark)}
    (hgroups : Grouped (done ++ rest)) (h : Blanked events done.flatten left)
    (hdue : Due events done.flatten rest.flatten) :
    callsFrom left (List.range' done.length rest.length) =
      .ok (rest.flatten.map fun mark => mark.event.call) := by
  -- the groups that are done are blanked, and the next one moves over to them
  induction rest generalizing done left with
  | nil => rfl
  | cons group rest ih =>
      obtain ⟨next, hat, hblanked⟩ := (hgroups done group rest rfl).called h hdue.front
      rw [List.append_cons] at hgroups
      have hmore := ih hgroups (by simpa using hblanked) (by simpa using hdue.back)
      rw [List.length_append, List.length_singleton] at hmore
      simp [List.range'_succ, callsFrom, hat, hmore, bind, Except.bind, pure, Except.pure]

/-- A log in which all nodes are named has the calls of its events in the order in which they
are replayed. -/
theorem Recorded.calls {log : Log} {word : List Mark} (h : Recorded log.events word)
    (hnamed : ∀ mark ∈ word, mark.event.Named) :
    log.calls = .ok (word.map fun mark => mark.event.call) := by
  obtain ⟨⟨groups, hgroups, rfl, hlength⟩, hnodup, hshows⟩ := h
  have hnothing : Blanked log.events [] log.events :=
    ⟨rfl, fun _ hmark => (List.not_mem_nil hmark).elim, fun _ _ => rfl⟩
  have hall := @Grouped.called log.events log.events [] groups hgroups hnothing
    ⟨hshows, hnamed, hnodup⟩
  rwa [hlength, List.length_nil, ← List.range_eq_range'] at hall

/-! ## Writing to a log -/

theorem Chain.head {place : Nat} {marks : List Mark} (h : Chain place marks) :
    ∃ mark ∈ marks, mark.place = place := by
  cases h <;> exact ⟨_, List.mem_cons_self, rfl⟩

theorem Chain.expand {place target : Nat} {kind : Kind} {marks new : List Mark}
    (h : Chain place marks) (hnew : Chain target new) :
    Chain place (Mark.expand ⟨target, .start kind none⟩ new marks) := by
  induction h with
  | @last place other =>
      by_cases heq : (⟨place, .start other none⟩ : Mark) = ⟨target, .start kind none⟩
      · cases heq
        simpa [Mark.expand] using hnew
      · simpa [Mark.expand, heq] using last
  | link _ ih => simpa [Mark.expand] using ih.link

theorem Grouped.expand {groups : List (List Mark)} {target : Nat} {new : List Mark}
    (h : Grouped groups) (hnew : Chain target new) (kind : Kind) :
    Grouped (groups.map (Mark.expand ⟨target, .start kind none⟩ new.reverse)) := by
  intro before group after heq
  obtain ⟨front, rest, rfl, rfl, hrest⟩ := List.map_eq_append_iff.1 heq
  obtain ⟨old, back, rfl, rfl, rfl⟩ := List.map_eq_cons_iff.1 hrest
  rw [Mark.expand_flatten, List.length_map]
  cases h front old back rfl with
  | moved hmoved =>
      obtain ⟨mark, hmark, hplace⟩ := hmoved
      refine .moved ?_
      by_cases hold : mark = ⟨target, .start kind none⟩
      · obtain ⟨first, hfirst, hsame⟩ := hnew.head
        subst hold
        exact ⟨first, Mark.mem_expand.2 (.inr ⟨hmark, List.mem_reverse.2 hfirst⟩),
          hsame.trans hplace⟩
      · exact ⟨mark, Mark.mem_expand.2 (.inl ⟨hmark, hold⟩), hplace⟩
  | token content => simpa [Mark.expand] using Group.token content
  | finish => simpa [Mark.expand] using Group.finish
  | chain hchain =>
      rw [← Mark.reverse_expand]
      exact .chain (hchain.expand hnew)

theorem Grouped.snoc {groups : List (List Mark)} {group : List Mark} (h : Grouped groups)
    (hgroup : Group groups.flatten groups.length group) : Grouped (groups ++ [group]) := by
  intro before other after heq
  rcases List.eq_nil_or_concat after with rfl | ⟨after, last, rfl⟩
  · obtain ⟨rfl, hlast⟩ := List.append_inj' heq rfl
    obtain rfl := List.singleton_inj.1 hlast
    exact hgroup
  · rw [List.concat_eq_append, ← List.cons_append, ← List.append_assoc] at heq
    exact h before other after (List.append_inj_left' heq rfl)

namespace Ordered

variable {count target : Nat} {kind : Kind} {word front back new group : List Mark}

theorem snoc (h : Ordered count word) (hgroup : Group word count group) :
    Ordered (count + 1) (word ++ group) := by
  obtain ⟨groups, hgroups, rfl, rfl⟩ := h
  exact ⟨groups ++ [group], hgroups.snoc hgroup, by simp, by simp⟩

theorem expand (h : Ordered count (front ++ ⟨target, .start kind none⟩ :: back))
    (hnodup : ((front ++ ⟨target, .start kind none⟩ :: back).map Mark.place).Nodup)
    (hnew : Chain target new) : Ordered count (front ++ (new.reverse ++ back)) := by
  obtain ⟨groups, hgroups, hflatten, rfl⟩ := h
  refine ⟨_, hgroups.expand hnew kind, ?_, List.length_map _⟩
  rw [Mark.expand_flatten, hflatten]
  exact Mark.expand_middle hnodup

end Ordered

namespace Recorded

variable {events : Array Event} {word front back : List Mark} {place : Nat}

theorem nil : Recorded #[] [] :=
  ⟨⟨[], fun _ _ _ h => by simp at h, rfl, rfl⟩, .nil, fun _ h => (List.not_mem_nil h).elim⟩

theorem place_lt (h : Recorded events word) {mark : Mark} (hmark : mark ∈ word) :
    mark.place < events.size := (Array.getElem?_eq_some_iff.1 (h.shows mark hmark)).1

theorem size_notMem (h : Recorded events word) : events.size ∉ word.map Mark.place := by
  intro hmem
  obtain ⟨mark, hmark, heq⟩ := List.mem_map.1 hmem
  exact Nat.ne_of_lt (h.place_lt hmark) heq

theorem push (h : Recorded events word) {event : Event}
    (hgroup : Group word events.size [⟨events.size, event⟩]) :
    Recorded (events.push event) (word ++ [⟨events.size, event⟩]) := by
  refine ⟨by simpa using h.ordered.snoc hgroup, ?_, fun mark hmark => ?_⟩
  · rw [List.map_append, List.map_singleton, ← List.concat_eq_append]
    exact h.nodup.concat h.size_notMem
  · rcases List.mem_append.1 hmark with hold | hlast
    · have hne := Nat.ne_of_lt (h.place_lt hold)
      simp [Array.getElem?_push, hne, h.shows mark hold]
    · obtain rfl := List.mem_singleton.1 hlast
      simp

private theorem beside {old mark : Mark} (h : Recorded events (front ++ old :: back))
    (hmark : mark ∈ front ∨ mark ∈ back) :
    old.place ≠ mark.place ∧ mark.place ≠ events.size ∧
      events[mark.place]? = some mark.event := by
  have hmem : mark ∈ front ++ old :: back := by
    rcases hmark with hfront | hback
    · exact List.mem_append_left _ hfront
    · exact List.mem_append_right _ (List.mem_cons_of_mem _ hback)
  have hnodup := h.nodup
  rw [List.map_append, List.map_cons, List.nodup_middle, ← List.map_append] at hnodup
  refine ⟨fun heq => ?_, Nat.ne_of_lt (h.place_lt hmem), h.shows mark hmem⟩
  exact (List.nodup_cons.1 hnodup).1 (heq ▸ List.mem_map_of_mem (List.mem_append.2 hmark))

theorem name (h : Recorded events (front ++ ⟨place, .blank⟩ :: back)) (kind : Kind) :
    Recorded (events.set! place (.start kind none))
      (front ++ ⟨place, .start kind none⟩ :: back) := by
  have hlast : Chain place [⟨place, .start kind none⟩] := .last
  refine ⟨by simpa using h.ordered.expand h.nodup hlast, by simpa using h.nodup,
    fun mark hmark => ?_⟩
  have hother : ∀ mark : Mark, mark ∈ front ∨ mark ∈ back →
      (events.set! place (.start kind none))[mark.place]? = some mark.event := by
    intro mark hside
    obtain ⟨hne, -, hshown⟩ := h.beside hside
    simpa [hne] using hshown
  rcases List.mem_append.1 hmark with hfront | hmark
  · exact hother mark (.inl hfront)
  rcases List.mem_cons.1 hmark with rfl | hback
  · have hlt := h.place_lt (List.mem_append_right front List.mem_cons_self)
    simp [hlt]
  · exact hother mark (.inr hback)

theorem link {kind : Kind} (h : Recorded events (front ++ ⟨place, .start kind none⟩ :: back)) :
    Recorded ((events.push .blank).set! place (.start kind (some (events.size - place))))
      (front ++ ⟨events.size, .blank⟩ ::
        ⟨place, .start kind (some (events.size - place))⟩ :: back) := by
  have hold : (⟨place, .start kind none⟩ : Mark) ∈ front ++ ⟨place, .start kind none⟩ :: back :=
    List.mem_append_right front List.mem_cons_self
  have hlt : place < events.size := h.place_lt hold
  have hchain : Chain place [⟨place, .start kind (some (events.size - place))⟩,
      ⟨place + (events.size - place), .blank⟩] := .link .last
  rw [Nat.add_sub_cancel' (Nat.le_of_lt hlt)] at hchain
  have hordered := h.ordered.expand h.nodup hchain
  have hmoved : ∃ mark ∈ front ++ ([⟨place, .start kind (some (events.size - place))⟩,
      ⟨events.size, .blank⟩].reverse ++ back), mark.place = events.size :=
    ⟨⟨events.size, .blank⟩, by simp, rfl⟩
  refine ⟨by simpa using hordered.snoc (.moved hmoved), ?_, fun mark hmark => ?_⟩
  · rw [List.map_append, List.map_cons, List.nodup_middle, List.map_cons]
    simpa using List.nodup_cons.2 ⟨h.size_notMem, h.nodup⟩
  · have hother : ∀ mark : Mark, mark ∈ front ∨ mark ∈ back →
        ((events.push .blank).set! place (.start kind (some (events.size - place))))[mark.place]? =
          some mark.event := by
      intro mark hside
      obtain ⟨hne, hsize, hshown⟩ := h.beside hside
      simpa [hne, Array.getElem?_push, hsize] using hshown
    rcases List.mem_append.1 hmark with hfront | hmark
    · exact hother mark (.inl hfront)
    rcases List.mem_cons.1 hmark with rfl | hmark
    · have hne : place ≠ events.size := Nat.ne_of_lt hlt
      simp [hne]
    rcases List.mem_cons.1 hmark with rfl | hback
    · have hlt' : place < events.size + 1 := Nat.lt_succ_of_lt hlt
      simp [hlt']
    · exact hother mark (.inr hback)

end Recorded

end Log

end TdSyntax

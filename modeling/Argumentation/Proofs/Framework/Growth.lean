import Argumentation.Proofs.Framework.Construction

/-!
# Growing frameworks

A framework is opened on some arguments and is then asked to add elements, some of which it refuses.
The plain account of this is a listing: the labels and the attacks in the order in which they were
added, without identifiers and without tables. Whatever a framework was asked before, it answers
every question as its listing does, and it refuses what its listing refuses.
-/

namespace Argumentation

variable {α : Type}

/-- Labels, and attacks between them, in insertion order. -/
structure Listing (α : Type) where
  labels : List α := []
  attacks : List (α × α) := []

namespace Listing

/-- Lists an element as the last one of its kind. -/
def append (listing : Listing α) : Element α -> Listing α
  | .argument label => { listing with labels := listing.labels ++ [label] }
  | .attack attacker attacked =>
    { listing with attacks := listing.attacks ++ [(attacker, attacked)] }

variable [DecidableEq α]

/-- Why an element cannot be added: an argument is refused when it is listed, and an attack when one
of its ends is not, of which the attacker is named first, or when it is listed itself. -/
def refusal? (listing : Listing α) : Element α -> Option (Error α)
  | .argument label => if label ∈ listing.labels then some (.duplicateArgument label) else none
  | .attack attacker attacked =>
    if attacker ∉ listing.labels then some (.unknownArgument attacker)
    else if attacked ∉ listing.labels then some (.unknownArgument attacked)
    else if listing.attacks.contains (attacker, attacked) then
      some (.duplicateAttack attacker attacked)
    else none

/-- The listing after it was asked to take in an element. -/
def record (listing : Listing α) (element : Element α) : Listing α :=
  match listing.refusal? element with
  | some _ => listing
  | none => listing.append element

variable {listing : Listing α}

theorem refusal?_argument_eq_none {label : α} :
    listing.refusal? (.argument label) = none ↔ label ∉ listing.labels := by
  rw [refusal?]
  split <;> simp_all

theorem refusal?_attack_eq_none {attacker attacked : α} :
    listing.refusal? (.attack attacker attacked) = none ↔
      attacker ∈ listing.labels ∧ attacked ∈ listing.labels ∧
        (attacker, attacked) ∉ listing.attacks := by
  rw [refusal?]
  split_ifs <;> simp_all

end Listing

/-- The arguments of a set are its labels with their positions. -/
theorem ArgumentSet.mem_toList {set : ArgumentSet α} {argument : Argument α} :
    argument ∈ set.toList ↔ set.labels[argument.id]? = some argument.label := by
  rw [toList, List.mem_mapIdx, List.getElem?_eq_some_iff]
  constructor
  · rintro ⟨id, inside, rfl⟩
    exact ⟨inside, rfl⟩
  · rintro ⟨inside, same⟩
    exact ⟨argument.id, inside, by rw [same]⟩

namespace Framework

/-- What a framework lists. -/
def listing (framework : Framework α) : Listing α :=
  ⟨framework.arguments.labels, framework.attackList⟩

variable [DecidableEq α]

/-- Adds an element. -/
def add (framework : Framework α) : Element α -> Except (Error α) (Framework α)
  | .argument label => framework.addArgument label
  | .attack attacker attacked => framework.addAttack attacker attacked

/-- The framework after it was asked to add an element. -/
def extend (framework : Framework α) (element : Element α) : Framework α :=
  match framework.add element with
  | .ok later => later
  | .error _ => framework

/-- The framework after it was asked to add some elements, one after the other. -/
def grow (framework : Framework α) (elements : List (Element α)) : Framework α :=
  elements.foldl extend framework

/-- Every identifier and every position that a framework keeps leads somewhere. -/
structure InRange (framework : Framework α) : Prop where
  ids : forall label id, framework.arguments.ids.get? label = some id ->
    id < framework.arguments.size
  ends : forall attack, attack ∈ framework.attacks ->
    attack.1 < framework.arguments.size ∧ attack.2 < framework.arguments.size
  rows : framework.outgoing.length = framework.arguments.size ∧
    framework.incoming.length = framework.arguments.size
  positions : forall row, row ∈ framework.outgoing ++ framework.incoming ->
    forall position, position ∈ row -> position < framework.attacks.length

/-- A framework that answers every question as a listing does. -/
structure Presents (framework : Framework α) (listing : Listing α) : Prop where
  distinct : listing.labels.Nodup
  /-- The arguments are numbered from zero in insertion order. -/
  arguments : framework.arguments.toList = listing.labels.mapIdx fun id label => ⟨id, label⟩
  argumentCount : framework.argumentCount = listing.labels.length
  /-- There is an argument for each of these numbers and for no other. -/
  byId : forall id, framework.arguments.argument? id = framework.arguments.toList[id]?
  /-- The two ways to look up an argument are inverse to each other. -/
  inverse : forall label argument, framework.arguments.find label = .ok argument ↔
    framework.arguments.argument? argument.id = some argument ∧ argument.label = label
  unknown : forall label, label ∉ listing.labels ->
    framework.arguments.find label = .error (.unknownArgument label)
  contains : forall label, framework.arguments.contains label = true ↔ label ∈ listing.labels
  once : listing.attacks.Nodup
  attacks : framework.attackList = listing.attacks
  attackCount : framework.attackCount = listing.attacks.length
  hasAttack : forall attacker attacked, framework.hasAttack attacker attacked = true ↔
    (attacker, attacked) ∈ framework.attackList
  attacksFrom : forall argument, argument ∈ framework.arguments.toList ->
    framework.attacksFrom argument =
      framework.attackList.filter fun attack => attack.1 = argument.label
  attacksTo : forall argument, argument ∈ framework.arguments.toList ->
    framework.attacksTo argument =
      framework.attackList.filter fun attack => attack.2 = argument.label
  inRange : framework.InRange

section Steps

variable {framework : Framework α} {element : Element α}

/-- What the listing refuses is refused. -/
theorem Consistent.add_of_refused (consistent : framework.Consistent) {error : Error α}
    (refused : framework.listing.refusal? element = some error) :
    framework.add element = .error error := by
  cases element with
  | argument label =>
    rw [Listing.refusal?] at refused
    split at refused
    · rename_i known
      cases refused
      exact consistent.addArgument_of_mem known
    · cases refused
  | attack attacker attacked =>
    rw [Listing.refusal?] at refused
    split at refused
    · rename_i unknown
      cases refused
      exact consistent.addAttack_of_unknown_attacker unknown
    · rename_i first
      split at refused
      · rename_i unknown
        cases refused
        exact consistent.addAttack_of_unknown_attacked (not_not.mp first) unknown
      · split at refused
        · rename_i known
          cases refused
          exact consistent.addAttack_of_mem (List.contains_iff_mem.mp known)
        · cases refused

/-- What the listing does not refuse is added to it. -/
theorem Consistent.add_of_free (consistent : framework.Consistent)
    (free : framework.listing.refusal? element = none) :
    ∃ later, framework.add element = .ok later ∧ later.Consistent ∧
      later.listing = framework.listing.append element := by
  cases element with
  | argument label =>
    obtain ⟨later, added, again, labels, attacks⟩ :=
      consistent.addArgument_of_not_mem (Listing.refusal?_argument_eq_none.mp free)
    refine ⟨later, added, again, ?_⟩
    rw [listing, labels, attacks]
    rfl
  | attack attacker attacked =>
    obtain ⟨first, second, new⟩ := Listing.refusal?_attack_eq_none.mp free
    obtain ⟨later, added, again, arguments, attacks⟩ :=
      consistent.addAttack_of_not_mem first second new
    refine ⟨later, added, again, ?_⟩
    rw [listing, arguments, attacks]
    rfl

/-- A framework is asked to add what its listing is asked to record. -/
theorem Consistent.extend (consistent : framework.Consistent) (element : Element α) :
    (framework.extend element).Consistent ∧
      (framework.extend element).listing = framework.listing.record element := by
  cases refusal : framework.listing.refusal? element with
  | some error =>
    rw [Framework.extend, consistent.add_of_refused refusal, Listing.record, refusal]
    exact ⟨consistent, rfl⟩
  | none =>
    obtain ⟨later, added, again, listed⟩ := consistent.add_of_free refusal
    rw [Framework.extend, added, Listing.record, refusal]
    exact ⟨again, listed⟩

theorem Consistent.grow (consistent : framework.Consistent) (elements : List (Element α)) :
    (framework.grow elements).Consistent ∧
      (framework.grow elements).listing = elements.foldl Listing.record framework.listing := by
  induction elements generalizing framework with
  | nil => exact ⟨consistent, rfl⟩
  | cons element elements ih =>
    obtain ⟨again, listed⟩ := consistent.extend element
    rw [List.foldl_cons, ← listed]
    exact ih again

end Steps

section Answers

variable {framework : Framework α}

theorem Consistent.inRange (consistent : framework.Consistent) : framework.InRange where
  ids label id found :=
    (List.getElem?_eq_some_iff.mp ((consistent.arguments label id).mp found)).1
  ends attack member := consistent.ends _ _ member
  rows := by
    rw [consistent.outgoing, consistent.incoming]
    simp
  positions row listed position member := by
    have among {endOf : Nat × Nat -> Nat} {index : List (List Nat)}
        (indexes : Indexes index framework.arguments.size framework.attacks endOf)
        (listed : row ∈ index) : position < framework.attacks.length := by
      rw [indexes] at listed
      obtain ⟨id, _, rfl⟩ := List.mem_map.mp listed
      simpa using List.lt_add_of_mem_findIdxs position member
    exact (List.mem_append.mp listed).elim (among consistent.outgoing) (among consistent.incoming)

theorem Consistent.find_eq_ok_iff (consistent : framework.Consistent) {label : α}
    {argument : Argument α} : framework.arguments.find label = .ok argument ↔
      framework.arguments.argument? argument.id = some argument ∧ argument.label = label := by
  obtain ⟨id, other⟩ := argument
  simp only [ArgumentSet.argument?, Option.map_eq_some_iff, Argument.mk.injEq, true_and,
    exists_eq_right]
  constructor
  · intro found
    by_cases known : label ∈ framework.arguments.labels
    · obtain ⟨position, stands, again⟩ := consistent.arguments.find_of_mem known
      cases again.symm.trans found
      exact ⟨stands, rfl⟩
    · rw [consistent.arguments.find_of_not_mem known] at found
      cases found
  · rintro ⟨stands, rfl⟩
    exact consistent.arguments.find_of_position stands

/-- Every attack is listed with the labels of its ends. -/
theorem Consistent.length_attackList (consistent : framework.Consistent) :
    framework.attackList.length = framework.attacks.length := by
  rw [attackList, List.length_filterMap_eq_countP, List.countP_eq_length]
  intro attack member
  obtain ⟨first, second⟩ := consistent.ends _ _ member
  rw [Option.isSome_iff_exists]
  exact ⟨_, attackLabels?_eq_some.mpr
    ⟨List.getElem?_eq_getElem first, List.getElem?_eq_getElem second⟩⟩

/-- A consistent framework presents what it lists. -/
theorem Consistent.presents (consistent : framework.Consistent) :
    framework.Presents framework.listing where
  distinct := consistent.arguments.distinct
  arguments := rfl
  argumentCount := rfl
  byId id := by
    rw [ArgumentSet.argument?, ArgumentSet.toList, List.getElem?_mapIdx]
  inverse label argument := consistent.find_eq_ok_iff
  unknown label absent := consistent.arguments.find_of_not_mem absent
  contains := consistent.arguments.contains_iff
  once := consistent.nodup_attackList
  attacks := rfl
  attackCount := consistent.length_attackList.symm
  hasAttack attacker attacked := consistent.hasAttack_iff
  attacksFrom _ member := consistent.attacksFrom_eq (ArgumentSet.mem_toList.mp member)
  attacksTo _ member := consistent.attacksTo_eq (ArgumentSet.mem_toList.mp member)
  inRange := consistent.inRange

end Answers

/-- A framework is opened on distinct labels and asked to add elements, in any order and whether or
not it refuses some of them. It then presents the labels and the attacks that it took in. It goes on
to refuse exactly what its listing refuses, with the same error, and a refusal changes nothing. -/
theorem presents_grow (labels : List α) (distinct : labels.Nodup) (elements : List (Element α)) :
    ∃ set, ArgumentSet.ofLabels labels = .ok set ∧
      let framework := (ofArguments set).grow elements
      let listing := elements.foldl Listing.record ⟨labels, []⟩
      framework.Presents listing ∧
      forall element, match listing.refusal? element with
        | some error => framework.add element = .error error ∧ framework.extend element = framework
        | none => framework.add element = .ok (framework.extend element) := by
  obtain ⟨set, opened⟩ := ArgumentSet.exists_ofLabels_iff.mpr distinct
  obtain ⟨built, listed⟩ := ArgumentSet.isBuilt_ofLabels opened
  obtain ⟨consistent, same⟩ := (Consistent.ofArguments built.consistent).grow elements
  have start : (ofArguments set).listing = ⟨labels, []⟩ := by rw [listing, ← listed]; rfl
  rw [start] at same
  refine ⟨set, opened, same ▸ consistent.presents, fun element => ?_⟩
  rw [← same]
  split
  · rename_i error refused
    have unchanged := consistent.add_of_refused refused
    exact ⟨unchanged, by rw [extend, unchanged]⟩
  · rename_i free
    obtain ⟨later, added, _⟩ := consistent.add_of_free free
    rw [extend, added]

/-- Refused and accepted requests in turn: an attack whose attacker is unknown, and that comes back
once it is known, a repeated argument, and a repeated attack. -/
theorem presents_grow_interleaved :
    ∃ set, ArgumentSet.ofLabels ["a", "b"] = .ok set ∧
      let framework := (ofArguments set).grow [.attack "c" "a", .argument "c", .attack "c" "a",
        .argument "b", .attack "a" "b", .attack "c" "a", .attack "b" "a"]
      framework.arguments.toList = [⟨0, "a"⟩, ⟨1, "b"⟩, ⟨2, "c"⟩] ∧
      framework.attackList = [("c", "a"), ("a", "b"), ("b", "a")] ∧
      framework.attacksTo ⟨0, "a"⟩ = [("c", "a"), ("b", "a")] ∧
      framework.add (.attack "d" "e") = .error (.unknownArgument "d") ∧
      framework.extend (.attack "d" "e") = framework := by
  obtain ⟨set, opened, presents, refuses⟩ := presents_grow ["a", "b"] (by decide)
    [.attack "c" "a", .argument "c", .attack "c" "a", .argument "b", .attack "a" "b",
      .attack "c" "a", .attack "b" "a"]
  have attacks := presents.attacks
  have arguments := presents.arguments
  refine ⟨set, opened, arguments, attacks, ?_, refuses (.attack "d" "e")⟩
  rw [presents.attacksTo ⟨0, "a"⟩ (by rw [arguments]; decide), attacks]
  decide

end Framework

end Argumentation

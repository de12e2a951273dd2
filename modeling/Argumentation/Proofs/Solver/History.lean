import Argumentation.Proofs.Session.Account
import Argumentation.Proofs.Solver.Refusals

/-!
# Histories

A history is the list of the changes that were carried out on a solver. It decides all that is
visible of the elements: which ones are known, in which order they came, and which ones are active.
An element is active when it was enabled after everything that ends its activity.
-/

namespace Argumentation

/-- The changes that were carried out, in order. Adding an element enables it. -/
abbrev History (α : Type) := List (Patch α)

variable {α : Type}

/-- The element that a change enables. -/
def Patch.enabled? : Patch α -> Option (Element α)
  | .enable element => some element
  | .disable _ => none

namespace Encoding

/-- The ends of an attack. -/
def attack? : Element α -> Option (α × α)
  | .argument _ => none
  | .attack attacker attacked => some (attacker, attacked)

/-- The attacks among some elements, in order. -/
def attacks (elements : List (Element α)) : List (α × α) :=
  elements.filterMap attack?

theorem mem_attacks {elements : List (Element α)} {attacker attacked : α} :
    (attacker, attacked) ∈ attacks elements ↔ .attack attacker attacked ∈ elements := by
  simp only [attacks, List.mem_filterMap]
  constructor
  · rintro ⟨element, member, same⟩
    cases element <;> simp_all [attack?]
  · exact fun member => ⟨_, member, rfl⟩

end Encoding

namespace History

/-- The changes that end the activity of an element: that it is disabled itself and, for an attack,
that one of its ends is. -/
def endings : Element α -> List (Patch α)
  | .argument label => [.disable (.argument label)]
  | .attack attacker attacked =>
    [.disable (.attack attacker attacked), .disable (.argument attacker),
      .disable (.argument attacked)]

/-- A position is the last one at which a change was carried out. -/
def LastAt (history : History α) (change : Patch α) (position : Nat) : Prop :=
  history[position]? = some change ∧
    forall other, history[other]? = some change -> other <= position

/-- All that ends the activity of an element was carried out before a position. -/
def EndedBefore (history : History α) (element : Element α) (position : Nat) : Prop :=
  forall other ending, ending ∈ endings element -> history[other]? = some ending ->
    other < position

/-- An element is active when its last enabling is later than everything that ends its activity. -/
def Active (history : History α) (element : Element α) : Prop :=
  ∃ last, history.LastAt (.enable element) last ∧ history.EndedBefore element last

theorem enable_not_mem_endings (element other : Element α) :
    .enable element ∉ endings other := by
  cases other <;> simp [endings]

theorem LastAt.unique {history : History α} {change : Patch α} {first second : Nat}
    (left : history.LastAt change first) (right : history.LastAt change second) :
    first = second :=
  Nat.le_antisymm (right.2 first left.1) (left.2 second right.1)

/-- What stands in a history is the newest change or stood there before. -/
theorem getElem?_append_singleton {history : History α} {newest change : Patch α}
    {position : Nat} :
    (history ++ [newest])[position]? = some change ↔
      history[position]? = some change ∨ position = history.length ∧ newest = change := by
  rw [List.getElem?_append]
  by_cases before : position < history.length
  · simp [before, Nat.ne_of_lt before]
  · have outside : history[position]? = none := List.getElem?_eq_none_iff.mpr (by omega)
    simp only [before, if_false, outside, List.getElem?_singleton]
    by_cases next : position = history.length
    · simp [next]
    · simp [next, show position - history.length ≠ 0 by omega]

theorem lt_length {history : History α} {change : Patch α} {position : Nat}
    (found : history[position]? = some change) : position < history.length :=
  (List.getElem?_eq_some_iff.mp found).1

/-- The newest change stands last. -/
theorem lastAt_append_self (history : History α) (newest : Patch α) :
    LastAt (history ++ [newest]) newest history.length := by
  refine ⟨getElem?_append_singleton.mpr (.inr ⟨rfl, rfl⟩), fun other found => ?_⟩
  rcases getElem?_append_singleton.mp found with old | ⟨rfl, _⟩
  · exact Nat.le_of_lt (lt_length old)
  · exact Nat.le_refl _

theorem lastAt_append_of_ne {history : History α} {newest change : Patch α} {position : Nat}
    (other : newest ≠ change) :
    LastAt (history ++ [newest]) change position ↔ history.LastAt change position := by
  simp [LastAt, getElem?_append_singleton, other]

/-- What was carried out once was carried out for a last time. -/
theorem exists_lastAt {history : History α} {change : Patch α} (member : change ∈ history) :
    ∃ position, history.LastAt change position := by
  induction history using List.reverseRecOn with
  | nil => simp at member
  | append_singleton history newest ih =>
    by_cases same : newest = change
    · subst same
      exact ⟨history.length, lastAt_append_self history newest⟩
    · simp only [lastAt_append_of_ne same]
      exact ih (by simpa [Ne.symm same] using member)

/-- The newest change decides, unless it has nothing to do with the element. -/
theorem active_append_singleton {history : History α} {newest : Patch α} {element : Element α} :
    Active (history ++ [newest]) element ↔
      newest = .enable element ∨ newest ∉ endings element ∧ history.Active element := by
  by_cases enables : newest = .enable element
  · subst enables
    refine iff_of_true ⟨_, lastAt_append_self _ _, fun other ending ends found => ?_⟩ (.inl rfl)
    rcases getElem?_append_singleton.mp found with old | ⟨_, rfl⟩
    · exact lt_length old
    · exact absurd ends (enable_not_mem_endings element element)
  · simp only [Active, lastAt_append_of_ne enables, enables, false_or]
    constructor
    · rintro ⟨last, stands, ended⟩
      refine ⟨fun ends => ?_, last, stands, fun other ending ends found =>
        ended other ending ends (getElem?_append_singleton.mpr (.inl found))⟩
      have later := ended _ _ ends (getElem?_append_singleton.mpr (.inr ⟨rfl, rfl⟩))
      exact Nat.lt_asymm later (lt_length stands.1)
    · rintro ⟨stays, last, stands, ended⟩
      refine ⟨last, stands, fun other ending ends found => ?_⟩
      rcases getElem?_append_singleton.mp found with old | ⟨_, rfl⟩
      · exact ended other ending ends old
      · exact absurd ends stays

section Added

variable [DecidableEq α]

/-- The elements that were ever enabled, in the order in which they first were. -/
def added (history : History α) : List (Element α) :=
  (history.filterMap Patch.enabled?).eraseDups

theorem mem_added {history : History α} {element : Element α} :
    element ∈ history.added ↔ .enable element ∈ history := by
  rw [added, List.mem_eraseDups, List.mem_filterMap]
  constructor
  · rintro ⟨change, member, same⟩
    cases change <;> simp_all [Patch.enabled?]
  · exact fun member => ⟨_, member, rfl⟩

theorem added_append_enable (history : History α) (element : Element α) :
    added (history ++ [.enable element]) =
      if element ∈ history.added then history.added else history.added ++ [element] := by
  simp only [added, List.mem_eraseDups, List.filterMap_append, List.eraseDups_append]
  split <;> simp_all [Patch.enabled?, List.removeAll, List.eraseDups_cons]

theorem added_append_disable (history : History α) (element : Element α) :
    added (history ++ [.disable element]) = history.added := by
  rw [added, List.filterMap_append]
  exact congrArg List.eraseDups (List.append_nil _)

end Added

end History

namespace Registry

variable [DecidableEq α]

/-- What a change does to a registry: an element that is enabled for the first time is added. -/
def follow (registry : Registry α) : Patch α -> Registry α
  | .enable element =>
    (if registry.Knows element then registry else registry.add element).raise element
  | .disable element =>
    { registry with
      active := fun other =>
        decide (.disable element ∉ History.endings other) && registry.active other }

/-- The registry that a history leads to. -/
def ofHistory (history : History α) : Registry α :=
  history.foldl follow {}

theorem ofHistory_append_singleton (history : History α) (newest : Patch α) :
    ofHistory (history ++ [newest]) = (ofHistory history).follow newest := by
  simp [ofHistory]

/-- The labels and the attacks of a registry are those of some elements, in order. -/
structure Lists (registry : Registry α) (elements : List (Element α)) : Prop where
  labels : registry.labels = Encoding.labels elements
  attacks : registry.attacks = Encoding.attacks elements

omit [DecidableEq α] in
theorem active_add (registry : Registry α) (element : Element α) :
    (registry.add element).active = registry.active := by
  cases element <;> rfl

theorem active_follow {registry : Registry α} {change : Patch α} {element : Element α} :
    (registry.follow change).active element = true ↔
      change = .enable element ∨
        change ∉ History.endings element ∧ registry.active element = true := by
  cases change with
  | enable other =>
    have active : (if registry.Knows other then registry else registry.add other).active =
        registry.active := by
      split
      · rfl
      · exact active_add registry other
    simp [follow, raise, active, History.enable_not_mem_endings, @eq_comm _ other element]
  | disable other => simp [follow]

omit [DecidableEq α] in
theorem Lists.knows_iff {registry : Registry α} {elements : List (Element α)}
    (lists : registry.Lists elements) {element : Element α} :
    registry.Knows element ↔ element ∈ elements := by
  cases element with
  | argument label => rw [Knows, lists.labels, Encoding.mem_labels]
  | attack attacker attacked => rw [Knows, lists.attacks, Encoding.mem_attacks]

omit [DecidableEq α] in
theorem Lists.add {registry : Registry α} {elements : List (Element α)}
    (lists : registry.Lists elements) (element : Element α) :
    (registry.add element).Lists (elements ++ [element]) := by
  obtain ⟨labels, attacks⟩ := lists
  cases element <;> constructor <;>
    simp [Registry.add, labels, attacks, Encoding.labels, Encoding.label?, Encoding.attacks,
      Encoding.attack?]

/-- The elements of a registry are those that were enabled, in the order in which they first
were. -/
theorem lists_ofHistory (history : History α) : (ofHistory history).Lists history.added := by
  induction history using List.reverseRecOn with
  | nil => exact ⟨rfl, rfl⟩
  | append_singleton history newest ih =>
    rw [ofHistory_append_singleton]
    cases newest with
    | enable element =>
      rw [History.added_append_enable]
      simp only [follow, ih.knows_iff]
      split
      · exact ⟨ih.labels, ih.attacks⟩
      · exact ⟨(ih.add element).labels, (ih.add element).attacks⟩
    | disable element =>
      rw [History.added_append_disable]
      exact ⟨ih.labels, ih.attacks⟩

theorem active_ofHistory {history : History α} {element : Element α} :
    (ofHistory history).active element = true ↔ history.Active element := by
  induction history using List.reverseRecOn with
  | nil => simp [ofHistory, History.Active, History.LastAt]
  | append_singleton history newest ih =>
    rw [ofHistory_append_singleton, active_follow, History.active_append_singleton, ih]

section Operations

variable {registry later : Registry α}

theorem follow_of_enableArgument {label : α}
    (done : registry.enableArgument label = .ok later) :
    later = registry.follow (.enable (.argument label)) := by
  rw [enableArgument, checkKnown_bind] at done
  split at done
  · rename_i known
    cases done
    exact (congrArg (raise · _) (if_pos known)).symm
  · cases done

theorem follow_of_disableArgument {label : α}
    (done : registry.disableArgument label = .ok later) :
    later = registry.follow (.disable (.argument label)) := by
  rw [disableArgument, checkKnown_bind] at done
  split at done
  · cases done
    rw [follow]
    congr 1
    funext other
    cases other <;> simp [History.endings, touches, eq_comm]
  · cases done

theorem follow_of_enableAttack {attacker attacked : α}
    (done : registry.enableAttack attacker attacked = .ok later) :
    later = registry.follow (.enable (.attack attacker attacked)) := by
  rw [enableAttack, checkKnown_ends, checkAttack_bind, checkActive_ends] at done
  split at done
  · cases done
  · split at done
    · rename_i known
      split at done
      · cases done
      · cases done
        exact (congrArg (raise · _) (if_pos known)).symm
    · cases done

theorem follow_of_disableAttack {attacker attacked : α}
    (done : registry.disableAttack attacker attacked = .ok later) :
    later = registry.follow (.disable (.attack attacker attacked)) := by
  rw [disableAttack, checkKnown_ends, checkAttack_bind] at done
  split at done
  · cases done
  · split at done
    · cases done
      rw [follow, lower]
      congr 1
      funext other
      cases other <;> simp [History.endings, eq_comm]
    · cases done

theorem follow_of_newAttack {attacker attacked : α}
    (done : registry.newAttack attacker attacked = .ok later) :
    later = registry.follow (.enable (.attack attacker attacked)) := by
  rw [newAttack, checkKnown_ends] at done
  split at done
  · cases done
  · split at done
    · cases done
    · rename_i new
      dsimp only at done
      rw [checkActive_ends] at done
      split at done
      · cases done
      · cases done
        exact (congrArg (raise · _) (if_neg new)).symm

variable [Label α]

theorem follow_of_newArgument {label : α} (done : registry.newArgument label = .ok later) :
    later = registry.follow (.enable (.argument label)) := by
  rw [newArgument] at done
  split at done
  · split at done
    · cases done
    · rename_i new
      cases done
      exact (congrArg (raise · _) (if_neg new)).symm
  · cases done

/-- A patch that is carried out does what it says. -/
theorem follow_of_applyPatch {patch : Patch α} (done : registry.applyPatch patch = .ok later) :
    later = registry.follow patch := by
  cases patch with
  | enable element =>
    cases element with
    | argument label =>
      rw [applyPatch] at done
      split at done
      · exact follow_of_enableArgument done
      · exact follow_of_newArgument done
    | attack attacker attacked =>
      rw [applyPatch] at done
      split at done
      · exact follow_of_enableAttack done
      · exact follow_of_newAttack done
  | disable element =>
    cases element with
    | argument label => exact follow_of_disableArgument done
    | attack attacker attacked => exact follow_of_disableAttack done

end Operations

end Registry

end Argumentation

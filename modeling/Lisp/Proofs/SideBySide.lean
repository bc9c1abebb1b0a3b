import Lisp.Proofs.OtherOperations
import Lisp.Proofs.WorldsAlike

/-!
# Two runs side by side

Two actions are alike when from worlds of which one follows the other they end in the same
way: both with results that belong together, or both with the same failure, having written
the same text and having come to worlds of which one follows the other again
(`Renaming.Alike`).  Actions made of parts that are alike are alike (`Renaming.Alike.bind`).

So evaluating a form and evaluating the renamed form are alike, by induction on the fuel
(`Renaming.alike_evaluate`), and every value that turns up on the way is ordinary.  The
first of the two runs may have other native operations, as long as those do on ordinary
arguments what the native operations do (`Operations.Agree`): no others are ever passed.
-/

set_option autoImplicit false

namespace Lisp

/-! ## Actions that are alike -/

namespace Renaming

/-- What two runs come to when they go on side by side: one world still follows the other,
nothing that was made is gone, and both have written the same text.  Frames of the world that
follows which stand for none of the other's are as they were. -/
structure Reaches (naming : Renaming) (world world' after after' : World) : Prop where
  follows : naming.Follows after after'
  more : world.extent ≤ after.extent
  text : ∃ text, after.output = world.output ++ text ∧ after'.output = world'.output ++ text
  others : ∀ place, (∀ frame, naming.frame frame ≠ place) →
    after'.heap.frame? place = world'.heap.frame? place

theorem Follows.reaches {naming : Renaming} {world world' : World}
    (follows : naming.Follows world world') : naming.Reaches world world' world world' where
  follows := follows
  more := le_refl _
  text := ⟨"", by simp, by simp⟩
  others _ _ := rfl

theorem Reaches.trans {naming : Renaming} {world world' between between' after after' : World}
    (first : naming.Reaches world world' between between')
    (second : naming.Reaches between between' after after') :
    naming.Reaches world world' after after' where
  follows := second.follows
  more := le_trans first.more second.more
  text := by
    obtain ⟨text, left, right⟩ := first.text
    obtain ⟨further, left', right'⟩ := second.text
    exact ⟨text ++ further, by rw [left', left, String.append_assoc],
      by rw [right', right, String.append_assoc]⟩
  others place other := (second.others place other).trans (first.others place other)

/-- Two ways in which runs can end from two worlds that are alike. -/
inductive EndsAlike {α β : Type} (naming : Renaming) (related : Extent → α → β → Prop)
    (world world' : World) : Outcome α → Outcome β → Prop where
  | finished {value : α} {value' : β} {after after' : World} :
      naming.Reaches world world' after after' → related after.extent value value' →
        EndsAlike naming related world world' (.finished value after) (.finished value' after')
  | failed {failure : Failure} {after after' : World} :
      naming.Reaches world world' after after' → failure.IsOrdinary →
        EndsAlike naming related world world' (.failed failure after) (.failed failure after')
  | outOfFuel : EndsAlike naming related world world' .outOfFuel .outOfFuel

/-- Whether two actions end alike from all worlds in which so much has been made and of which
one follows the other. -/
def Alike {α β : Type} (naming : Renaming) (extent : Extent) (related : Extent → α → β → Prop)
    (action : Action α) (action' : Action β) : Prop :=
  ∀ world world', naming.Follows world world' → extent ≤ world.extent →
    naming.EndsAlike related world world' (action world) (action' world')

variable {α β γ δ : Type} {naming : Renaming} {extent : Extent}

/-- What two runs come to from where two others have come to. -/
theorem Reaches.endsAlike {related : Extent → α → β → Prop}
    {world world' between between' : World} {outcome : Outcome α} {outcome' : Outcome β}
    (first : naming.Reaches world world' between between')
    (ends : naming.EndsAlike related between between' outcome outcome') :
    naming.EndsAlike related world world' outcome outcome' := by
  cases ends with
  | finished reaches good => exact .finished (first.trans reaches) good
  | failed reaches ordinary => exact .failed (first.trans reaches) ordinary
  | outOfFuel => exact .outOfFuel

theorem EndsAlike.outOfFuel_iff {related : Extent → α → β → Prop} {world world' : World}
    {outcome : Outcome α} {outcome' : Outcome β}
    (ends : naming.EndsAlike related world world' outcome outcome') :
    outcome = .outOfFuel ↔ outcome' = .outOfFuel := by
  cases ends <;> simp

/-- Results stay related when more is made. -/
theorem alike_pure {related : Extent → α → β → Prop} {value : α} {value' : β}
    (good : ∀ later, extent ≤ later → related later value value') :
    naming.Alike extent related (pure value) (pure value') :=
  fun _ _ follows enough => .finished follows.reaches (good _ enough)

theorem alike_fail (related : Extent → α → β → Prop) {failure : Failure}
    (ordinary : failure.IsOrdinary) :
    naming.Alike extent related (Action.fail failure) (Action.fail failure) :=
  fun _ _ follows _ => .failed follows.reaches ordinary

theorem alike_throw (related : Extent → α → β → Prop) (error : Error)
    (ordinary : (Failure.error error).IsOrdinary) :
    naming.Alike extent related (Action.throw error) (Action.throw error) :=
  alike_fail related ordinary

/-- **What is done in two parts is alike when both parts are.** -/
theorem Alike.bind {related : Extent → α → β → Prop} {related' : Extent → γ → δ → Prop}
    {action : Action α} {action' : Action β} {next : α → Action γ} {next' : β → Action δ}
    (first : naming.Alike extent related action action')
    (second : ∀ later, extent ≤ later → ∀ value value', related later value value' →
      naming.Alike later related' (next value) (next' value')) :
    naming.Alike extent related' (action >>= next) (action' >>= next') := by
  intro world world' follows enough
  have ends := first world world' follows enough
  rw [Action.bind_apply, Action.bind_apply]
  generalize action world = outcome at ends
  generalize action' world' = outcome' at ends
  cases ends with
  | @finished value value' after after' reaches good =>
    have later := second after.extent (le_trans enough reaches.more) value value' good
    exact reaches.endsAlike (later after after' reaches.follows (le_refl _))
  | failed reaches ordinary => exact .failed reaches ordinary
  | outOfFuel => exact .outOfFuel

/-- Both take the same result from a computation. -/
theorem alike_ofExcept {related : Extent → α → α → Prop} {result : α → Prop}
    {computation : Except Failure α} (gives : GivesOrdinary result computation)
    (good : ∀ value, result value → ∀ later, extent ≤ later → related later value value) :
    naming.Alike extent related (Action.ofExcept computation) (Action.ofExcept computation) := by
  cases computation with
  | ok value => exact alike_pure (good value gives)
  | error failure => exact alike_fail related gives

theorem alike_throwShowing (related : Extent → α → β → Prop) (room : Room) (value : Value)
    (error : String → Error) (ordinary : ∀ text, (Failure.error (error text)).IsOrdinary) :
    naming.Alike extent related (Action.throwShowing room value error)
      (Action.throwShowing room (value.rename naming) error) := by
  have fails := value.shown_fails room
  unfold Action.throwShowing
  rw [Value.shown_rename]
  cases shown : value.shown room with
  | ok text => exact alike_throw related (error text) (ordinary text)
  | error fault =>
    rw [shown] at fails
    exact alike_fail related (.inl fails)

/-! ## Results that belong together -/

variable (naming)

/-- An ordinary value, and the same value under its new name. -/
def values (extent : Extent) (value value' : Value) : Prop :=
  value.IsOrdinary extent ∧ value' = value.rename naming

/-- Ordinary values, and the same values under their new names. -/
def lists (extent : Extent) (items items' : List Value) : Prop :=
  (∀ item ∈ items, item.IsOrdinary extent) ∧ items' = items.map (Value.rename naming)

/-- A frame that is there, and the same frame under its new name. -/
def frames (extent : Extent) (frame frame' : FrameId) : Prop :=
  frame < extent.frames ∧ frame' = naming.frame frame

/-- What a step comes to, and the same under new names. -/
def steps (extent : Extent) : Step → Step → Prop
  | .done value, .done value' => naming.values extent value value'
  | .tail form frame, .tail form' frame' =>
    naming.values extent form form' ∧ naming.frames extent frame frame'
  | _, _ => False

variable {naming}

/-- The same text. -/
def texts (_ : Extent) (text text' : String) : Prop :=
  text' = text

/-- Any two results. -/
def anyResults (_ : Extent) (_ : α) (_ : β) : Prop :=
  True

theorem alike_value {value : Value} (ordinary : value.IsOrdinary extent) :
    naming.Alike extent naming.values (pure value) (pure (value.rename naming)) :=
  alike_pure fun _ more => ⟨ordinary.mono more, rfl⟩

theorem alike_text {computation : Except Failure String}
    (gives : GivesOrdinary Anything computation) :
    naming.Alike extent texts (Action.ofExcept computation) (Action.ofExcept computation) :=
  alike_ofExcept gives fun _ _ _ _ => rfl

theorem alike_done {value : Value} (ordinary : value.IsOrdinary extent) :
    naming.Alike extent naming.steps (pure (.done value)) (pure (.done (value.rename naming))) :=
  alike_pure fun _ more => ⟨ordinary.mono more, rfl⟩

theorem alike_tail {form : Value} {frame : FrameId} (ordinary : form.IsOrdinary extent)
    (inside : frame < extent.frames) :
    naming.Alike extent naming.steps (pure (.tail form frame))
      (pure (.tail (form.rename naming) (naming.frame frame))) :=
  alike_pure fun _ more =>
    ⟨⟨ordinary.mono more, rfl⟩, Nat.lt_of_lt_of_le inside more.1, rfl⟩

/-- A computation on ordinary arguments that does not depend on names. -/
theorem Respects.alike {compute : List Value → Except Failure Value}
    (respects : naming.Respects extent compute (Value.IsOrdinary .nothing))
    {arguments : List Value} (each : ∀ argument ∈ arguments, argument.IsOrdinary extent) :
    naming.Alike extent naming.values (Action.ofExcept (compute arguments))
      (Action.ofExcept (compute (arguments.map (Value.rename naming)))) := by
  obtain ⟨same, gives⟩ := respects arguments each
  rw [same]
  refine alike_ofExcept gives fun value ordinary _ _ => ?_
  exact ⟨ordinary.of_nothing, (Value.rename_of_nothing naming ordinary).symm⟩

/-! ## Single actions -/

theorem alike_lookup (frame : FrameId) (name : String) :
    naming.Alike extent naming.values (Action.lookup frame name)
      (Action.lookup (naming.frame frame) name) := by
  intro world world' follows _
  unfold Action.lookup
  rw [follows.lookup?]
  cases found : world.heap.lookup? frame name with
  | some value => exact .finished follows.reaches ⟨follows.ordinary.lookup? found, rfl⟩
  | none => exact .failed follows.reaches trivial

theorem alike_define {frame : FrameId} (inside : frame < extent.frames) {name : String}
    (readable : IsReadableName name) {value : Value} (ordinary : value.IsOrdinary extent) :
    naming.Alike extent anyResults (Action.define frame name value)
      (Action.define (naming.frame frame) name (value.rename naming)) := by
  intro world world' follows enough
  have there := Nat.lt_of_lt_of_le inside enough.1
  refine .finished ?_ trivial
  exact {
    follows := follows.define there readable (ordinary.mono enough)
    more := by simp [World.extent]
    text := ⟨"", by simp, by simp⟩
    others := fun _ other => Heap.frame?_define_of_ne _ (other frame).symm _ _ }

theorem alike_newFrame (outer? : Option FrameId) :
    naming.Alike extent naming.frames (Action.newFrame outer?)
      (Action.newFrame (outer?.map naming.frame)) := by
  intro world world' follows _
  refine .finished ?_ ⟨by simp [World.extent], follows.frame_size.symm⟩
  exact {
    follows := follows.push outer?
    more := by simp [World.extent, Extent.le_iff]
    text := ⟨"", by simp, by simp⟩
    others := fun place other => by
      rw [Heap.frame?_push, if_neg]
      rintro rfl
      exact other _ follows.frame_size }

theorem alike_newClosure {parameters : List String}
    (readable : ∀ parameter ∈ parameters, IsReadableName parameter) {body : Value}
    (ordinary : body.IsOrdinary extent) {frame : FrameId} (inside : frame < extent.frames) :
    naming.Alike extent naming.values (Action.newClosure parameters body frame)
      (Action.newClosure parameters (body.rename naming) (naming.frame frame)) := by
  intro world world' follows enough
  have more : world.extent ≤ World.extent { world with closures := world.closures + 1 } := by
    simp [World.extent, Extent.le_iff]
  refine .finished ⟨follows.newClosure, more, ⟨"", by simp, by simp⟩, fun _ _ => rfl⟩ ⟨?_, ?_⟩
  · exact .closure (Nat.lt_succ_self _) readable (ordinary.mono (le_trans enough more))
      (Nat.lt_of_lt_of_le inside enough.1)
  · rw [Value.rename, follows.identity_closures]

theorem alike_write (text : String) :
    naming.Alike extent anyResults (Action.write text) (Action.write text) :=
  fun _ _ follows _ =>
    .finished ⟨follows.write text text, le_refl _, ⟨text, rfl, rfl⟩, fun _ _ => rfl⟩ trivial

theorem alike_defineAll {frame : FrameId} (inside : frame < extent.frames) {bindings : Bindings}
    (each : ∀ binding ∈ bindings, IsReadableName binding.1 ∧ binding.2.IsOrdinary extent) :
    naming.Alike extent anyResults (Action.defineAll frame bindings)
      (Action.defineAll (naming.frame frame) (bindings.rename naming)) := by
  induction bindings generalizing extent with
  | nil => exact alike_pure fun _ _ => trivial
  | cons binding rest ih =>
    obtain ⟨⟨readable, ordinary⟩, others⟩ := List.forall_mem_cons.1 each
    refine (alike_define inside readable ordinary).bind fun later more _ _ _ => ?_
    refine ih (Nat.lt_of_lt_of_le inside more.1) fun binding member => ?_
    exact ⟨(others binding member).1, (others binding member).2.mono more⟩

end Renaming

end Lisp

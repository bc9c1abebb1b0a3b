import Lisp.Proofs.OrdinarySessions
import Lisp.Proofs.WorldsApart

/-!
# Several interpreters

Interpreters that live in one world are made in it one after the other, and each is given its
requests in between those of the others, in any order (`Together`).  Each has a part of the
world to itself: what it would have made alone, under other names (`Shadow.Stands`), and the
parts of two have no frame in common (`Apart`).

A request changes the part of the interpreter that it is given to, and leaves those of the
others as they are (`Apart.perform`); making an interpreter adds a part (`Apart.create`).  So
an interpreter does not notice the others (`interpreters_do_not_interfere`).
-/

set_option autoImplicit false

namespace Lisp

/-! ## Requests and answers -/

/-- What an interpreter can be asked to do, with the host to do it with. -/
inductive Request where
  | evaluate (host : Host) (source : String)
  | evaluateAndPrint (host : Host) (source : String)
  | load (host : Host) (path : String)

/-- What a request gives: a value, or the text of one. -/
inductive Answer where
  | value (value : Value)
  | text (text : String)

/-- What can be seen of an answer. -/
def Answer.shown (style : Style) (room : Room) : Answer → Except Failure String
  | .value given => given.render style room
  | .text given => .ok given

/-- Does what an interpreter is asked to do. -/
def Request.perform (interpreter : Interpreter) : Request → Action Answer
  | .evaluate host source => do return .value (← interpreter.evaluate host source)
  | .evaluateAndPrint host source => do return .text (← interpreter.evaluateAndPrint host source)
  | .load host path => do return .value (← interpreter.load host path)

/-- Does all that an interpreter is asked to do, also after requests that failed; there is no
world in the end if one of them does not come to an end. -/
def Interpreter.performAll (interpreter : Interpreter) : List Request → World → Option World
  | [], world => some world
  | request :: rest, world =>
    (request.perform interpreter world).world?.bind (performAll interpreter rest)

/-- Whether a request ends in the same way among others and alone: with answers that look the
same or with the same failure, having written the same text, and with the same bindings in the
root, where what is bound may have other names. -/
inductive SameStep (naming : Renaming) (interpreter solo : Interpreter) (world alone : World) :
    Outcome Answer → Outcome Answer → Prop where
  | finished {answer answer' : Answer} {after after' : World} (text : String) :
      (∀ style room, answer.shown style room = answer'.shown style room) →
        after.output = world.output ++ text → after'.output = alone.output ++ text →
          after.heap.bindings interpreter.root =
              (after'.heap.bindings solo.root).rename naming →
            SameStep naming interpreter solo world alone (.finished answer after)
              (.finished answer' after')
  | failed {failure : Failure} {after after' : World} (text : String) :
      after.output = world.output ++ text → after'.output = alone.output ++ text →
        after.heap.bindings interpreter.root =
            (after'.heap.bindings solo.root).rename naming →
          SameStep naming interpreter solo world alone (.failed failure after)
            (.failed failure after')
  | outOfFuel : SameStep naming interpreter solo world alone .outOfFuel .outOfFuel

/-! ## Worlds with several interpreters -/

/-- An interpreter, with the host and the settings that it was made with and all that it was
asked to do since, in order. -/
structure Member where
  interpreter : Interpreter
  host : Host
  settings : Settings
  requests : List Request

/-- The worlds that several interpreters live in, each made at any time, and each given its
requests in between those of the others. -/
inductive Together : World → List Member → Prop where
  | nobody : Together .initial []
  | join {world after : World} {members : List Member} {interpreter : Interpreter} {host : Host}
      {settings : Settings} :
      Together world members →
        Interpreter.create host settings world = .finished interpreter after →
          Together after (members ++ [⟨interpreter, host, settings, []⟩])
  | perform {world after : World} {members : List Member} {place : Nat} {member : Member}
      {request : Request} :
      Together world members → members[place]? = some member →
        (request.perform member.interpreter world).world? = some after →
          Together after
            (members.set place { member with requests := member.requests ++ [request] })

/-! ## Requests side by side -/

namespace Renaming

variable {naming : Renaming} {extent : Extent}

/-- An answer with an ordinary value, and the same answer under new names. -/
def answers (naming : Renaming) (extent : Extent) : Answer → Answer → Prop
  | .value value, .value value' => naming.values extent value value'
  | .text text, .text text' => text' = text
  | _, _ => False

/-- **A request is performed alike in worlds of which one follows the other.** -/
theorem alike_request (naming : Renaming) {root : FrameId} (inside : root < extent.frames)
    (request : Request) :
    naming.Alike extent naming.answers (request.perform ⟨root⟩)
      (request.perform ⟨naming.frame root⟩) := by
  cases request with
  | evaluate host source =>
    have evaluated := alike_evaluateSource naming Operations.agree_call host inside source
    rw [Operations.evaluateSource_call] at evaluated
    refine evaluated.bind fun later more value value' related => ?_
    exact alike_pure fun _ most => ⟨related.1.mono most, related.2⟩
  | evaluateAndPrint host source =>
    refine (alike_evaluateAndPrint naming host inside source).bind fun _ _ text text' related => ?_
    exact alike_pure fun _ _ => related
  | load host path =>
    have loaded := alike_load naming Operations.agree_call host inside path
    rw [Operations.load_call] at loaded
    refine loaded.bind fun later more value value' related => ?_
    exact alike_pure fun _ most => ⟨related.1.mono most, related.2⟩

theorem shown_of_answers {answer answer' : Answer} (related : naming.answers extent answer answer')
    (style : Style) (room : Room) : answer'.shown style room = answer.shown style room := by
  cases answer with
  | value given =>
    cases answer' with
    | value given' =>
      obtain ⟨_, rfl⟩ := related
      exact given.render_rename naming style room
    | text given' => exact related.elim
  | text given =>
    cases answer' with
    | value given' => exact related.elim
    | text given' =>
      cases related
      rfl

theorem EndsAlike.sameStep {alone world : World} {outcome outcome' : Outcome Answer}
    (ends : naming.EndsAlike naming.answers alone world outcome outcome')
    {interpreter solo : Interpreter} (root : interpreter.root = naming.frame solo.root) :
    SameStep naming interpreter solo world alone outcome' outcome := by
  cases ends with
  | finished reaches related =>
    obtain ⟨text, left, right⟩ := reaches.text
    refine .finished text (shown_of_answers related) right left ?_
    rw [root]
    exact reaches.follows.bindings solo.root
  | failed reaches _ =>
    obtain ⟨text, left, right⟩ := reaches.text
    refine .failed text right left ?_
    rw [root]
    exact reaches.follows.bindings solo.root
  | outOfFuel => exact .outOfFuel

/-- The renaming that names things as if so much had been made before them. -/
def beyond (extent : Extent) : Renaming where
  frame := (extent.frames + ·)
  identity := (extent.closures + ·)
  frame_injective := add_right_injective extent.frames
  identity_injective := add_right_injective extent.closures

theorem follows_initial (world : World) : (beyond world.extent).Follows .initial world where
  ordinary := World.isOrdinary_initial
  frame next := congrArg (world.heap.size + ·) (Nat.zero_add next)
  identity next := congrArg (world.closures + ·) (Nat.zero_add next)
  bindings frame := by
    have absent : world.heap.size ≤ (beyond world.extent).frame frame := Nat.le_add_right _ frame
    rw [Heap.bindings_of_absent absent, Heap.bindings_of_absent (Nat.zero_le frame)]
    rfl
  outer? frame := by
    have absent : world.heap.size ≤ (beyond world.extent).frame frame := Nat.le_add_right _ frame
    rw [Heap.outer?_of_absent absent, Heap.outer?_of_absent (Nat.zero_le frame)]
    rfl

end Renaming

/-! ## What an interpreter would be alone -/

/-- An interpreter that is alone, the world that it was made in, the world that it has come to,
and the names that the frames of that world have in a world with others. -/
structure Shadow where
  solo : Interpreter
  begun : World
  alone : World
  naming : Renaming

namespace Shadow

/-- Whether the shadow is that of an interpreter among others: it was made in the same way, it
was asked the same, and what it has made is there under its new names. -/
structure Stands (shadow : Shadow) (member : Member) (world : World) : Prop where
  created : Interpreter.create member.host member.settings .initial =
    .finished shadow.solo shadow.begun
  performed : shadow.solo.performAll member.requests shadow.begun = some shadow.alone
  follows : shadow.naming.Follows shadow.alone world
  root_eq : member.interpreter.root = shadow.naming.frame shadow.solo.root
  inside : shadow.solo.root < shadow.alone.heap.size

/-- The frames of the world with others that belong to the interpreter. -/
def Owns (shadow : Shadow) (place : FrameId) : Prop :=
  ∃ frame < shadow.alone.heap.size, shadow.naming.frame frame = place

/-- The shadow after something was done elsewhere. -/
def past (shadow : Shadow) (before after : World) : Shadow :=
  { shadow with naming := shadow.naming.past before.extent after.extent }

namespace Stands

variable {shadow : Shadow} {member : Member} {world after : World}
variable (stands : shadow.Stands member world)
include stands

theorem lt_size {place : FrameId} (owns : shadow.Owns place) : place < world.heap.size := by
  obtain ⟨frame, there, rfl⟩ := owns
  exact (stands.follows.lt_size_iff frame).2 there

/-- **All that can be come to from the root of an interpreter belongs to it.** -/
theorem owns_of_reachable {place : FrameId}
    (reachable : world.heap.Reachable member.interpreter.root place) : shadow.Owns place := by
  rw [stands.root_eq] at reachable
  exact stands.follows.exists_of_reachable stands.inside reachable

theorem owns_past {place : FrameId} : (shadow.past world after).Owns place ↔ shadow.Owns place := by
  constructor
  · rintro ⟨frame, there, rfl⟩
    exact ⟨frame, there, (stands.follows.past_frame there _).symm⟩
  · rintro ⟨frame, there, rfl⟩
    exact ⟨frame, there, stands.follows.past_frame there _⟩

section Elsewhere

variable {naming : Renaming} {alone alone' : World} (follows : naming.Follows alone world)
variable (reaches : naming.Reaches alone world alone' after)
variable (elsewhere : ∀ place, shadow.Owns place →
  ∀ frame < alone.heap.size, naming.frame frame ≠ place)
include follows reaches elsewhere

/-- What is done elsewhere leaves the frames of an interpreter as they are. -/
theorem frame?_eq {place : FrameId} (owns : shadow.Owns place) :
    after.heap.frame? place = world.heap.frame? place := by
  refine reaches.others place fun frame same => ?_
  rcases follows.lt_size_or_le frame with there | absent
  · exact elsewhere place owns frame there same
  · rw [same] at absent
    exact absurd (stands.lt_size owns) (Nat.not_lt.2 absent)

/-- An interpreter is the same after something was done elsewhere. -/
theorem past : (shadow.past world after).Stands member after where
  created := stands.created
  performed := stands.performed
  follows := stands.follows.past (follows.more reaches) fun frame there =>
    stands.frame?_eq follows reaches elsewhere ⟨frame, there, rfl⟩
  root_eq := stands.root_eq.trans (stands.follows.past_frame stands.inside _).symm
  inside := stands.inside

end Elsewhere

/-- **A request ends alike for an interpreter among others and alone.** -/
theorem endsAlike (request : Request) :
    shadow.naming.EndsAlike shadow.naming.answers shadow.alone world
      (request.perform shadow.solo shadow.alone) (request.perform member.interpreter world) := by
  have named : member.interpreter = ⟨shadow.naming.frame shadow.solo.root⟩ :=
    congrArg Interpreter.mk stands.root_eq
  rw [named]
  exact Renaming.alike_request shadow.naming stands.inside request shadow.alone world
    stands.follows (le_refl _)

end Stands

end Shadow

theorem Interpreter.performAll_append (interpreter : Interpreter) (requests : List Request)
    (request : Request) (world : World) :
    interpreter.performAll (requests ++ [request]) world =
      (interpreter.performAll requests world).bind fun between =>
        (request.perform interpreter between).world? := by
  induction requests generalizing world with
  | nil =>
    simp only [List.nil_append, performAll, Option.bind_some, Option.bind_fun_some]
  | cons first rest ih =>
    simp only [List.cons_append, performAll, Option.bind_assoc, ih]

namespace Shadow.Stands

variable {shadow : Shadow} {member : Member} {world after : World}

/-- What an interpreter has done among others when a request has come to an end, it has done
alone. -/
theorem perform (stands : shadow.Stands member world) {request : Request}
    (left : (request.perform member.interpreter world).world? = some after) :
    ∃ alone', shadow.naming.Reaches shadow.alone world alone' after ∧
      Stands { shadow with alone := alone' }
        { member with requests := member.requests ++ [request] } after := by
  have ends := stands.endsAlike request
  have performed : ∀ alone', (request.perform shadow.solo shadow.alone).world? = some alone' →
      shadow.solo.performAll (member.requests ++ [request]) shadow.begun = some alone' := by
    intro alone' left'
    rw [Interpreter.performAll_append, stands.performed]
    exact left'
  obtain ⟨alone', left', reaches⟩ : ∃ alone',
      (request.perform shadow.solo shadow.alone).world? = some alone' ∧
        shadow.naming.Reaches shadow.alone world alone' after := by
    generalize request.perform shadow.solo shadow.alone = outcome at ends
    generalize request.perform member.interpreter world = outcome' at ends left
    cases ends with
    | finished reaches _ =>
      cases left
      exact ⟨_, rfl, reaches⟩
    | failed reaches _ =>
      cases left
      exact ⟨_, rfl, reaches⟩
    | outOfFuel => cases left
  exact ⟨alone', reaches, stands.created, performed alone' left', reaches.follows, stands.root_eq,
    Nat.lt_of_lt_of_le stands.inside reaches.more.1⟩

/-- An interpreter that is made among others is made alone. -/
theorem create {interpreter : Interpreter} {host : Host} {settings : Settings}
    (created : Interpreter.create host settings world = .finished interpreter after) :
    ∃ solo begun, (Renaming.beyond world.extent).Reaches .initial world begun after ∧
      Stands ⟨solo, begun, begun, .beyond world.extent⟩ ⟨interpreter, host, settings, []⟩
        after := by
  obtain ⟨root, _, built⟩ := Action.finished_of_bind_pure created
  obtain ⟨prelude, loads⟩ := host.exists_loadPackaged_eq_of_newRoot built
  have ends := Renaming.alike_create (.beyond world.extent) host loads .initial world
    (Renaming.follows_initial world) (Extent.nothing_le _)
  rw [created] at ends
  generalize alone : Interpreter.create host settings .initial = outcome at ends
  cases ends with
  | finished reaches related =>
    exact ⟨_, _, reaches, alone, rfl, reaches.follows, related.2, related.1⟩

end Shadow.Stands

/-! ## Interpreters apart -/

/-- Whether each interpreter in a world has a part of it to itself. -/
structure Apart (world : World) (members : List Member) (shadows : Nat → Shadow) : Prop where
  stands : ∀ place member, members[place]? = some member → (shadows place).Stands member world
  apart : ∀ place place' member member', members[place]? = some member →
    members[place']? = some member' → place ≠ place' →
      ∀ frame, (shadows place).Owns frame → ¬ (shadows place').Owns frame

namespace Apart

variable {world after : World} {members members' : List Member} {shadows : Nat → Shadow}

/-- **Interpreters stay apart when something is done in the part of one of them, or in a new
part.** -/
theorem extend (parts : Apart world members shadows) (place : Nat) (shadow : Shadow)
    {member : Member} {alone : World} (found : members'[place]? = some member)
    (others : ∀ other, other ≠ place → members'[other]? = members[other]?)
    (follows : shadow.naming.Follows alone world)
    (reaches : shadow.naming.Reaches alone world shadow.alone after)
    (stands : shadow.Stands member after)
    (elsewhere : ∀ other member, other ≠ place → members[other]? = some member →
      ∀ frame, (shadows other).Owns frame →
        ∀ own < alone.heap.size, shadow.naming.frame own ≠ frame) :
    Apart after members' fun other =>
      if other = place then shadow else (shadows other).past world after := by
  have apart_new : ∀ other member, other ≠ place → members[other]? = some member →
      ∀ frame, (shadows other).Owns frame → ¬ shadow.Owns frame := by
    rintro other member different among frame owns ⟨own, _, rfl⟩
    rcases follows.lt_size_or_le own with there | absent
    · exact elsewhere other member different among _ owns own there rfl
    · exact absurd ((parts.stands other member among).lt_size owns) (Nat.not_lt.2 absent)
  constructor
  · intro other member' among
    by_cases same : other = place
    · subst same
      rw [found] at among
      cases among
      simpa using stands
    · rw [others other same] at among
      simpa [same] using (parts.stands other member' among).past follows reaches
        (elsewhere other member' same among)
  · intro first second member₁ member₂ among₁ among₂ different frame
    by_cases same : first = place
    · have other : second ≠ place := fun same' => different (same.trans same'.symm)
      rw [others second other] at among₂
      simp only [same, other, if_true, if_false, (parts.stands second member₂ among₂).owns_past]
      exact fun owns owns' => apart_new second member₂ other among₂ frame owns' owns
    · rw [others first same] at among₁
      by_cases same' : second = place
      · simp only [same, same', if_true, if_false, (parts.stands first member₁ among₁).owns_past]
        exact apart_new first member₁ same among₁ frame
      · rw [others second same'] at among₂
        simp only [same, same', if_false, (parts.stands first member₁ among₁).owns_past,
          (parts.stands second member₂ among₂).owns_past]
        exact parts.apart first second member₁ member₂ among₁ among₂ different frame

/-- Interpreters stay apart when one of them performs a request. -/
theorem perform (parts : Apart world members shadows) {place : Nat} {member : Member}
    (found : members[place]? = some member) {request : Request}
    (left : (request.perform member.interpreter world).world? = some after) :
    ∃ shadows', Apart after
      (members.set place { member with requests := member.requests ++ [request] }) shadows' := by
  have stands := parts.stands place member found
  obtain ⟨alone', reaches, stands'⟩ := stands.perform left
  refine ⟨_, parts.extend place { shadows place with alone := alone' } ?_ ?_ stands.follows reaches
    stands' ?_⟩
  · rw [List.getElem?_set_self', found]
    rfl
  · intro other different
    exact List.getElem?_set_ne (Ne.symm different)
  · rintro other member' different among frame owns own there rfl
    exact parts.apart other place member' member among found different _ owns ⟨own, there, rfl⟩

/-- Interpreters stay apart when another is made. -/
theorem create (parts : Apart world members shadows) {interpreter : Interpreter} {host : Host}
    {settings : Settings}
    (created : Interpreter.create host settings world = .finished interpreter after) :
    ∃ shadows', Apart after (members ++ [⟨interpreter, host, settings, []⟩]) shadows' := by
  obtain ⟨solo, begun, reaches, stands⟩ := Shadow.Stands.create created
  refine ⟨_, parts.extend members.length ⟨solo, begun, begun, .beyond world.extent⟩ ?_ ?_
    (Renaming.follows_initial world) reaches stands ?_⟩
  · rw [List.getElem?_concat_length]
  · intro other different
    rcases Nat.lt_or_gt_of_ne different with before | behind
    · exact List.getElem?_append_left before
    · rw [List.getElem?_eq_none (Nat.le_of_lt behind), List.getElem?_eq_none]
      rw [List.length_append]
      exact behind
  · exact fun _ _ _ _ _ _ own there => absurd there (Nat.not_lt_zero own)

end Apart

/-- **Interpreters that live together are apart.** -/
theorem Together.exists_apart {world : World} {members : List Member}
    (together : Together world members) : ∃ shadows, Apart world members shadows := by
  induction together with
  | nobody =>
    refine ⟨fun _ => ⟨⟨0⟩, .initial, .initial, .same⟩, ?_, ?_⟩
    · rintro place member ⟨⟩
    · rintro place place' member member' ⟨⟩
  | join _ created ih =>
    obtain ⟨shadows, parts⟩ := ih
    exact parts.create created
  | perform _ found left ih =>
    obtain ⟨shadows, parts⟩ := ih
    exact parts.perform found left

/-- **Interpreters do not interfere.**

However many interpreters live in one world, and in whatever order their requests are
performed, each request of one ends as it does when the interpreter is made alone and given
just its own requests, in the same order: with an answer that looks the same or the same
failure, after the same text has been written, and with the same bindings in its root.

And neither the requests of others nor the making of others change any frame that can be come
to from its root. -/
theorem interpreters_do_not_interfere {world : World} {members : List Member}
    (together : Together world members) {place : Nat} {member : Member}
    (found : members[place]? = some member) :
    (∃ (solo : Interpreter) (begun alone : World) (naming : Renaming),
      Interpreter.create member.host member.settings .initial = .finished solo begun ∧
      solo.performAll member.requests begun = some alone ∧
      world.heap.bindings member.interpreter.root = (alone.heap.bindings solo.root).rename naming ∧
      ∀ request : Request, SameStep naming member.interpreter solo world alone
        (request.perform member.interpreter world) (request.perform solo alone)) ∧
    ∀ frame, world.heap.Reachable member.interpreter.root frame →
      (∀ (other : Nat) (member' : Member), other ≠ place → members[other]? = some member' →
        ∀ (request : Request) (after : World),
          (request.perform member'.interpreter world).world? = some after →
            after.heap.frame? frame = world.heap.frame? frame) ∧
      ∀ (host : Host) (settings : Settings) (interpreter : Interpreter) (after : World),
        Interpreter.create host settings world = .finished interpreter after →
          after.heap.frame? frame = world.heap.frame? frame := by
  obtain ⟨shadows, parts⟩ := together.exists_apart
  have stands := parts.stands place member found
  refine ⟨⟨(shadows place).solo, (shadows place).begun, (shadows place).alone,
    (shadows place).naming, stands.created, stands.performed, ?_, ?_⟩, ?_⟩
  · rw [stands.root_eq]
    exact stands.follows.bindings _
  · exact fun request => (stands.endsAlike request).sameStep stands.root_eq
  intro frame reachable
  have owns := stands.owns_of_reachable reachable
  refine ⟨?_, ?_⟩
  · intro other member' different among request after left
    have stands' := parts.stands other member' among
    obtain ⟨alone', reaches, _⟩ := stands'.perform left
    refine stands.frame?_eq stands'.follows reaches ?_ owns
    rintro _ owned own there rfl
    exact parts.apart other place member' member among found different _ ⟨own, there, rfl⟩ owned
  · intro host settings interpreter after created
    obtain ⟨_, _, reaches, _⟩ := Shadow.Stands.create created
    exact stands.frame?_eq (Renaming.follows_initial world) reaches
      (fun _ _ own there => absurd there (Nat.not_lt_zero own)) owns

/-- One of two interpreters defines a name, then the other defines it too and fails, and then the
first one uses it.  It sees its own definition, as it does alone, and the root of the other is as
the failure left it. -/
theorem requests_beside_failed_one :
    let host : Host := ⟨.empty, 3, .unlimited⟩
    let defines : Request := .evaluate host "(def! a nil)"
    let fails : Request := .evaluate host "(do (def! a true) (def! b))"
    let uses : Request := .evaluate host "(def! b a)"
    ∃ (first second : Interpreter) (before world after : World),
      Together before [⟨first, host, ⟨none, none⟩, [defines]⟩, ⟨second, host, ⟨none, none⟩, []⟩] ∧
      fails.perform second before = .failed (.error .definitionArity) world ∧
      Together world
        [⟨first, host, ⟨none, none⟩, [defines]⟩, ⟨second, host, ⟨none, none⟩, [fails]⟩] ∧
      (world.heap.bindings second.root).find? "a" = some (.boolean true) ∧
      uses.perform first world = .finished (.value .nil) after ∧
      after.heap.frame? second.root = world.heap.frame? second.root ∧
      ∃ (solo : Interpreter) (begun alone : World) (naming : Renaming),
        Interpreter.create host ⟨none, none⟩ .initial = .finished solo begun ∧
        solo.performAll [defines] begun = some alone ∧
        SameStep naming first solo world alone (uses.perform first world)
          (uses.perform solo alone) := by
  intro host defines fails uses
  have packaged : Prelude.isPackaged ⟨none, none⟩ = true := rfl
  obtain ⟨start, created⟩ := Interpreter.exists_create packaged .empty 1 World.initial
  obtain ⟨both, created'⟩ := Interpreter.exists_create packaged .empty 1 start
  obtain ⟨ordinary, positive⟩ :=
    Interpreter.isOrdinary_of_create packaged World.isOrdinary_initial created
  have inside : start.heap.size < both.heap.size :=
    (Interpreter.isOrdinary_of_create packaged ordinary created').2
  let first : Interpreter := ⟨0⟩
  let second : Interpreter := ⟨start.heap.size⟩
  have other : first.root ≠ second.root := Nat.ne_of_lt positive
  let before : World := { both with heap := both.heap.define first.root "a" .nil }
  let world : World :=
    { before with heap := before.heap.define second.root "a" (.boolean true) }
  let after : World := { world with heap := world.heap.define first.root "b" .nil }
  have defined : defines.perform first both = .finished (.value .nil) before := by
    have reads : readProgram .unlimited "(def! a nil)" =
        .ok [.list [.symbol "def!", .symbol "a", .nil]] := by cbv
    have evaluated : first.evaluate host "(def! a nil)" both = .finished .nil before := by
      rw [Interpreter.evaluate, host.evaluateSource_of_form reads]
      rfl
    rw [Request.perform, Action.bind_apply, evaluated]
    rfl
  have failed : fails.perform second before = .failed (.error .definitionArity) world := by
    have reads : readProgram .unlimited "(do (def! a true) (def! b))" =
        .ok [.list [.symbol "do", .list [.symbol "def!", .symbol "a", .boolean true],
          .list [.symbol "def!", .symbol "b"]]] := by cbv
    have evaluated : second.evaluate host "(do (def! a true) (def! b))" before =
        .failed (.error .definitionArity) world := by
      rw [Interpreter.evaluate, host.evaluateSource_of_form reads]
      rfl
    rw [Request.perform, Action.bind_apply, evaluated]
  have used : uses.perform first world = .finished (.value .nil) after := by
    have reads : readProgram .unlimited "(def! b a)" =
        .ok [.list [.symbol "def!", .symbol "b", .symbol "a"]] := by cbv
    have bound : (world.heap.bindings first.root).find? "a" = some .nil := by
      rw [before.heap.bindings_define_of_ne other,
        both.heap.find?_bindings_define (Nat.lt_of_le_of_lt (Nat.zero_le _) inside), if_pos rfl]
    have value : HasValue .empty 2 .unlimited first.root world (.symbol "a") .nil :=
      hasValue_symbol (Heap.lookup?_of_find? bound)
    have evaluated : first.evaluate host "(def! b a)" world = .finished .nil after := by
      rw [Interpreter.evaluate, host.evaluateSource_of_form reads]
      exact evaluate_define rfl value
    rw [Request.perform, Action.bind_apply, evaluated]
    rfl
  have together : Together before
      [⟨first, host, ⟨none, none⟩, [defines]⟩, ⟨second, host, ⟨none, none⟩, []⟩] :=
    @Together.perform _ _ _ 0 _ _ ((Together.nobody.join created).join created') rfl
      (congrArg Outcome.world? defined)
  have further : Together world
      [⟨first, host, ⟨none, none⟩, [defines]⟩, ⟨second, host, ⟨none, none⟩, [fails]⟩] :=
    @Together.perform _ _ _ 1 _ _ together rfl (congrArg Outcome.world? failed)
  obtain ⟨⟨solo, begun, alone, naming, made, performed, _, same⟩, _⟩ :=
    @interpreters_do_not_interfere _ _ further 0 _ rfl
  obtain ⟨_, kept⟩ := @interpreters_do_not_interfere _ _ further 1 _ rfl
  have unchanged := (kept _ .start).1 0 _ Nat.zero_ne_one rfl uses after
    (congrArg Outcome.world? used)
  refine ⟨first, second, before, world, after, together, failed, further, ?_, used, unchanged, solo,
    begun, alone, naming, made, performed, same uses⟩
  rw [before.heap.find?_bindings_define (by simpa [before] using inside), if_pos rfl]

end Lisp

import CppLab.Env.StdString

/-!
# A chain of handlers

Every handler overrides `handle`: it logs the request if the request starts with its
method, and otherwise calls the function of the base class, which forwards to the next
handler or logs that there is none. Handlers are addresses; `setNext_` leads from one to
the next, and nothing keeps it from leading in a circle, where `handle` has no end.

* `Chain` relates the first handler to all of its chain, in order;
* `Chain.handle_eq` is the dispatch along a chain;
* `dispatch` is what is logged, and that the order of the chain makes no difference.
-/

namespace CppLab.Patterns.ChainOfResponsibility

/-- The classes `ConcreteHandlerGET`, `ConcreteHandlerPUT` and `ConcreteHandlerPOST`. -/
inductive Method
  | get
  | put
  | post
  deriving DecidableEq

namespace Method

/-- `kHeader`. -/
def kHeader : Method → Bytes
  | get => ascii "GET"
  | put => ascii "PUT"
  | post => ascii "POST"

/-- What the handler logs in front of the request. -/
def handled : Method → Bytes
  | get => ascii "\tHandle GET request: "
  | put => ascii "\tHandle PUT request: "
  | post => ascii "\tHandle POST request: "

end Method

/-- What the base class logs in front of the request. -/
def noHandler : Bytes := ascii "\tNo handler processed request: "

variable {H : Type*} (method : H → Method) (setNext_ : H → Option H)

/-- `h->handle(request)`, as far as the fuel goes: the messages logged. -/
def handle (request : Bytes) : Nat → H → Option (List Bytes)
  | 0, _ => none
  | fuel + 1, h =>
      if StdString.rfind request (method h).kHeader 0 = 0 then
        some [(method h).handled ++ request]
      else
        -- `AbstractHandler::handle`
        match setNext_ h with
        | some next => handle request fuel next
        | none => some [noHandler ++ request]

/-- `h->setNext(handler)`. -/
def setNext [DecidableEq H] (h handler : H) : H → Option H :=
  Function.update setNext_ h (some handler)

/-- `h->setNext(g)->setNext(..)`: every call is on the handler that the one before has
returned. -/
def link [DecidableEq H] : (H → Option H) → H → List H → H → Option H
  | next, _, [] => next
  | next, h, g :: rest => link (setNext next h g) g rest

/-- The handlers from `h` on, to the last one. -/
inductive Chain : H → List H → Prop
  | last {h : H} (no : setNext_ h = none) : Chain h [h]
  | link {h next : H} {l : List H} (here : setNext_ h = some next) (rest : Chain next l) :
      Chain h (h :: l)

/-- The first handler of a chain whose method is a prefix of the request. -/
def responsible (request : Bytes) (l : List H) : Option H :=
  l.find? fun g => (method g).kHeader <+: request

/-- What is to be logged for a request. -/
def outcome (request : Bytes) (l : List H) : Bytes :=
  match responsible method request l with
  | some g => (method g).handled ++ request
  | none => noHandler ++ request

/-! ## Chains -/

/-- Handlers that do not lead in a circle form a chain, whichever is the first. -/
theorem exists_chain [Finite H]
    (acyclic : ∀ h, ¬ Relation.TransGen (fun a b => setNext_ a = some b) h h) (h : H) :
    ∃ l, Chain setNext_ h l := by
  let After (b a : H) : Prop := Relation.TransGen (fun a b => setNext_ a = some b) a b
  have irrefl : Std.Irrefl After := ⟨acyclic⟩
  have trans : IsTrans H After := ⟨fun _ _ _ ab bc => bc.trans ab⟩
  have wf : WellFounded After := Finite.wellFounded_of_trans_of_irrefl After
  induction h using wf.induction with
  | _ h ih =>
      cases here : setNext_ h with
      | none => exact ⟨[h], .last here⟩
      | some next =>
          obtain ⟨l, rest⟩ := ih next (.single here)
          exact ⟨h :: l, .link here rest⟩

/-- Calls on a handler that is not among those concerned leave it as it is. -/
theorem link_of_not_mem [DecidableEq H] (next : H → Option H) {h a : H} {l : List H}
    (fresh : a ∉ h :: l) : link next h l a = next a := by
  induction l generalizing next h with
  | nil => rfl
  | cons g rest ih =>
      rw [link, ih _ fun member => fresh (List.mem_cons_of_mem h member)]
      have ne : a ≠ h := by
        rintro rfl
        exact fresh List.mem_cons_self
      exact Function.update_of_ne ne ..

/-- Any handlers, in any order, can be made a chain. -/
theorem chain_link [DecidableEq H] {h : H} {l : List H} (distinct : (h :: l).Nodup)
    (next : H → Option H) (unlinked : ∀ g ∈ h :: l, next g = none) :
    Chain (link next h l) h (h :: l) := by
  induction l generalizing next h with
  | nil => exact .last (unlinked h List.mem_cons_self)
  | cons g rest ih =>
      obtain ⟨fresh, distinct⟩ := List.nodup_cons.mp distinct
      refine .link ?_ (ih distinct (setNext next h g) fun a member => ?_)
      · rw [link, link_of_not_mem _ fresh]
        exact Function.update_self ..
      · have ne : a ≠ h := fun same => fresh (same ▸ member)
        rw [setNext, Function.update_of_ne ne]
        exact unlinked a (List.mem_cons_of_mem h member)

/-! ## Dispatch -/

variable {method setNext_}

/-- The handlers log what is to be logged, and nothing else. -/
theorem Chain.handle_eq {h : H} {l : List H} (chain : Chain setNext_ h l) (request : Bytes)
    {fuel : Nat} (enough : l.length ≤ fuel) :
    handle method setNext_ request fuel h = some [outcome method request l] := by
  induction chain generalizing fuel with
  | @last h no =>
      obtain ⟨fuel, rfl⟩ := Nat.exists_eq_add_of_le' enough
      simp only [List.length_singleton, handle, StdString.rfind_zero_eq_zero_iff, no, outcome,
        responsible, List.find?_cons]
      split
      · rename_i starts
        rw [decide_eq_true starts]
      · rename_i other
        rw [decide_eq_false other]
        rfl
  | @link h next l here rest ih =>
      obtain ⟨fuel, rfl⟩ := Nat.exists_eq_add_of_le' enough
      rw [List.length_cons, ← Nat.add_assoc, handle]
      simp only [StdString.rfind_zero_eq_zero_iff, here, outcome, responsible, List.find?_cons]
      split
      · rename_i starts
        rw [decide_eq_true starts]
      · rename_i other
        rw [decide_eq_false other, ih (Nat.le_add_left _ _)]
        rfl

/-- No two methods are both prefixes of one request. -/
theorem eq_of_prefix {a b : Method} {request : Bytes} (ha : a.kHeader <+: request)
    (hb : b.kHeader <+: request) : a = b := by
  have apart : ∀ a b : Method, a.kHeader <+: b.kHeader → a = b := by
    intro a b
    cases a <;> cases b <;> decide
  rcases List.prefix_or_prefix_of_prefix ha hb with shorter | shorter
  · exact apart a b shorter
  · exact (apart b a shorter).symm

/-- The message of a handler is never the one for no handler. -/
theorem handled_ne_noHandler (m : Method) (request : Bytes) :
    m.handled ++ request ≠ noHandler ++ request := by
  intro same
  have texts := List.append_cancel_right same
  revert texts
  cases m <;> decide

theorem outcome_eq_noHandler_iff {request : Bytes} {l : List H} :
    outcome method request l = noHandler ++ request ↔
      ∀ g ∈ l, ¬ (method g).kHeader <+: request := by
  unfold outcome
  cases found : responsible method request l with
  | none =>
      refine iff_of_true rfl fun g member => ?_
      simpa using List.find?_eq_none.mp found g member
  | some g =>
      refine iff_of_false (handled_ne_noHandler _ _) fun nobody => ?_
      have starts : (method g).kHeader <+: request := by simpa using List.find?_some found
      exact nobody g (List.mem_of_find?_eq_some found) starts

/-- The method that is responsible depends on which handlers there are, and not on their
order. -/
theorem responsible_perm {request : Bytes} {l l' : List H} (perm : l'.Perm l) :
    (responsible method request l').map method = (responsible method request l).map method := by
  cases found : responsible method request l with
  | none =>
      have nobody := List.find?_eq_none.mp found
      have none' : responsible method request l' = none :=
        List.find?_eq_none.mpr fun g member => nobody g (perm.mem_iff.mp member)
      rw [none']
  | some g =>
      have starts : (method g).kHeader <+: request := by simpa using List.find?_some found
      have there := perm.mem_iff.mpr (List.mem_of_find?_eq_some found)
      cases found' : responsible method request l' with
      | none => exact absurd starts (by simpa using List.find?_eq_none.mp found' g there)
      | some g' =>
          have starts' : (method g').kHeader <+: request := by simpa using List.find?_some found'
          rw [Option.map_some, Option.map_some, eq_of_prefix starts' starts]

/-- **Dispatch.** On every chain and for every request exactly one message is logged: that
of the first handler whose method is a prefix of the request, or that there is none, and
this if and only if no method is a prefix. In any other order of the chain the same
method is responsible. -/
theorem dispatch {h : H} {l : List H} (chain : Chain setNext_ h l) (request : Bytes) :
    (∀ fuel, l.length ≤ fuel →
      handle method setNext_ request fuel h = some [outcome method request l]) ∧
    (outcome method request l = noHandler ++ request ↔
      ∀ g ∈ l, ¬ (method g).kHeader <+: request) ∧
    ∀ (other : H → Option H) (h' : H) (l' : List H), Chain other h' l' → l'.Perm l →
      (responsible method request l').map method = (responsible method request l).map method :=
  ⟨fun _ enough => chain.handle_eq request enough, outcome_eq_noHandler_iff,
    fun _ _ _ _ perm => responsible_perm perm⟩

/-- The chain of the example: POST, GET and PUT. -/
theorem dispatch_run : Chain (link (fun _ => none) (0 : Nat) [1, 2]) 0 [0, 1, 2] ∧
    handle (fun h => if h = 0 then .post else if h = 1 then .get else .put)
      (link (fun _ => none) 0 [1, 2]) (ascii "GET /users/123 ..") 3 0 =
        some [ascii "\tHandle GET request: GET /users/123 .."] := by
  have chain : Chain (link (fun _ => none) (0 : Nat) [1, 2]) 0 [0, 1, 2] :=
    chain_link (by decide) _ fun _ _ => rfl
  refine ⟨chain, ((dispatch chain (ascii "GET /users/123 ..")).1 3 (Nat.le_refl 3)).trans ?_⟩
  decide

end CppLab.Patterns.ChainOfResponsibility

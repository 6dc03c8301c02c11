import PacketReplay.Json.Reader
import PacketReplay.Proofs.Json.Tokens

/-!
# Reading undoes writing

The tokens of a value take the machine from a state that waits for a value to the state in which that value
is complete, whatever containers are open around it. With the tokens of a written text this gives back every
value, in the text on one line as well as in the text on many.
-/
namespace PacketReplay.Json

/-- The state takes the first token of a value, to be put into the containers of the stack. -/
def State.Awaits (state : State) (stack : List Open) : Prop :=
  ∀ token, token ≠ .closeArray → state.step token = beginValue stack token

theorem State.awaits_expectValue (stack : List Open) : (State.expectValue stack).Awaits stack :=
  fun _ _ => rfl

theorem State.awaits_firstItem (stack : List Open) :
    (State.firstItem stack).Awaits (.array [] :: stack) := by
  intro token other
  cases token with
  | closeArray => exact absurd rfl other
  | _ => rfl

theorem foldlM_token {state next : State} {token : Token} (step : state.step token = some next)
    (rest : List Token) : (token :: rest).foldlM State.step state = rest.foldlM State.step next := by
  rw [List.foldlM_cons, step]
  rfl

theorem foldlM_append_of_eq {state next : State} {front : List Token}
    (steps : front.foldlM State.step state = some next) (rest : List Token) :
    (front ++ rest).foldlM State.step state = rest.foldlM State.step next := by
  rw [List.foldlM_append, steps]
  rfl

mutual

theorem foldlM_tokens (value : Value) {state : State} {stack : List Open} (awaits : state.Awaits stack) :
    value.tokens.foldlM State.step state = some (.complete stack value) := by
  -- No value starts with a closing bracket, the one token that may stand in place of a first item.
  have first {token : Token} {next : State} (begins : beginValue stack token = some next)
      (other : token ≠ .closeArray) : state.step token = some next :=
    (awaits token other).trans begins
  cases value with
  | null => exact foldlM_token (first rfl (by simp)) []
  | bool value => exact foldlM_token (first rfl (by simp)) []
  | number numeral => exact foldlM_token (first rfl (by simp)) []
  | string content => exact foldlM_token (first rfl (by simp)) []
  | array items =>
    have opens : state.step .openArray = some (.firstItem stack) := first rfl (by simp)
    cases items with
    | nil => exact foldlM_token opens [.closeArray]
    | cons item rest =>
      have inside := foldlM_tokens item (State.awaits_firstItem stack)
      rw [Value.tokens, foldlM_token opens, foldlM_append_of_eq inside]
      exact foldlM_itemTokens rest stack [] item
  | object fields =>
    have opens : state.step .openObject = some (.firstName stack) := first rfl (by simp)
    cases fields with
    | nil => exact foldlM_token opens [.closeObject]
    | cons field rest =>
      obtain ⟨name, value⟩ := field
      have named : State.step (.firstName stack) (.string name) = some (.afterName stack [] name) := rfl
      have colon : State.step (.afterName stack [] name) .colon =
          some (.expectValue (.object [] name :: stack)) := rfl
      have inside := foldlM_tokens value (State.awaits_expectValue (.object [] name :: stack))
      rw [Value.tokens, foldlM_token opens, foldlM_token named, foldlM_token colon,
        foldlM_append_of_eq inside]
      exact foldlM_fieldTokens rest stack [] name value

/-- Behind an item of an array: the remaining items and the closing bracket. -/
theorem foldlM_itemTokens (items : List Value) (stack : List Open) (done : List Value) (item : Value) :
    (itemTokens items ++ [Token.closeArray]).foldlM State.step (.complete (.array done :: stack) item) =
      some (.complete stack (.array (done.reverse ++ item :: items))) := by
  cases items with
  | nil =>
    have closes : State.step (.complete (.array done :: stack) item) .closeArray =
        some (.complete stack (.array (item :: done).reverse)) := rfl
    rw [itemTokens, List.nil_append, foldlM_token closes, List.reverse_cons]
    rfl
  | cons next rest =>
    have comma : State.step (.complete (.array done :: stack) item) .comma =
        some (.expectValue (.array (item :: done) :: stack)) := rfl
    have inside := foldlM_tokens next (State.awaits_expectValue (.array (item :: done) :: stack))
    rw [itemTokens, List.cons_append, List.append_assoc, foldlM_token comma, foldlM_append_of_eq inside,
      foldlM_itemTokens rest, List.reverse_cons, List.append_assoc, List.singleton_append]

/-- Behind a field of an object: the remaining fields and the closing brace. -/
theorem foldlM_fieldTokens (fields : List (Content × Value)) (stack : List Open)
    (done : List (Content × Value)) (name : Content) (value : Value) :
    (fieldTokens fields ++ [Token.closeObject]).foldlM State.step
        (.complete (.object done name :: stack) value) =
      some (.complete stack (.object (done.reverse ++ (name, value) :: fields))) := by
  cases fields with
  | nil =>
    have closes : State.step (.complete (.object done name :: stack) value) .closeObject =
        some (.complete stack (.object ((name, value) :: done).reverse)) := rfl
    rw [fieldTokens, List.nil_append, foldlM_token closes, List.reverse_cons]
    rfl
  | cons field rest =>
    obtain ⟨other, next⟩ := field
    have comma : State.step (.complete (.object done name :: stack) value) .comma =
        some (.nextName stack ((name, value) :: done)) := rfl
    have named : State.step (.nextName stack ((name, value) :: done)) (.string other) =
        some (.afterName stack ((name, value) :: done) other) := rfl
    have colon : State.step (.afterName stack ((name, value) :: done) other) .colon =
        some (.expectValue (.object ((name, value) :: done) other :: stack)) := rfl
    -- The reader opens the next field on the stack, and its value comes back complete.
    have inside :=
      foldlM_tokens next (State.awaits_expectValue (.object ((name, value) :: done) other :: stack))
    simp only [fieldTokens, List.cons_append, List.append_assoc]
    rw [foldlM_token comma, foldlM_token named, foldlM_token colon, foldlM_append_of_eq inside,
      foldlM_fieldTokens rest, List.reverse_cons, List.append_assoc, List.singleton_append]

end

theorem parse?_write {layout : Layout} (plain : layout.Plain) (value : Value) :
    parse? (value.write layout 0) = some value := by
  have complete := foldlM_tokens value (State.awaits_expectValue [])
  simp [parse?, tokens?_write plain, complete]

theorem parse?_compact (value : Value) : parse? value.compact.toList = some value := by
  rw [Value.compact, String.toList_ofList]
  exact parse?_write Layout.plain_compact value

theorem parse?_pretty (value : Value) : parse? value.pretty.toList = some value := by
  rw [Value.pretty, String.toList_ofList]
  exact parse?_write Layout.plain_pretty value

end PacketReplay.Json

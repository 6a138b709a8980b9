import Mathlib.Data.List.Nodup
import OrderPlatform.Text.CodeUnits

/-!
# The grammar of JSON

JSON as a language of tokens, whatever the strings and the numbers of a reader or a writer are.  A
writer says how it writes the two (`Writer`), a reader what it takes for them (`Reader`), and
`Reads` is the agreement between the two: the reader reads back what was written, unless it rejects
the string.

Blanks may stand between the tokens of a text (`Laid`).  Wherever they stand, the text is read as
the value that it was written for if the reader accepts all strings in it, and is rejected otherwise
(`read_laid`).

* `Token`, `Value` — the two levels of the grammar.
* `lex`, `value` — from a text to tokens, and from tokens to a value.
* `Value.stringify`, `Reader.read` — without blanks, and both steps together.
-/

namespace JsonText

open Utf16 (Units lit)

variable {S N M : Type}

/-! ### Values and their tokens -/

/-- The tokens of a JSON text, over any kind of strings and numbers. -/
inductive Token (S N : Type)
  | null
  | bool (b : Bool)
  | num (n : N)
  | str (s : S)
  | openArray
  | closeArray
  | openObject
  | closeObject
  | comma
  | colon
deriving DecidableEq

mutual

/-- A JSON value. -/
inductive Value (S N : Type)
  | null
  | bool (b : Bool)
  | num (n : N)
  | str (s : S)
  | arr (items : Values S N)
  | obj (members : Members S N)
  deriving DecidableEq

/-- The elements of an array. -/
inductive Values (S N : Type)
  | nil
  | cons (head : Value S N) (tail : Values S N)
  deriving DecidableEq

/-- The members of an object, in the order in which they are written. -/
inductive Members (S N : Type)
  | nil
  | cons (key : S) (value : Value S N) (tail : Members S N)
  deriving DecidableEq

end

namespace Values

/-- The elements of an array. -/
def ofList : List (Value S N) → Values S N
  | [] => nil
  | v :: rest => cons v (ofList rest)

/-- The elements of an array as a list. -/
def toList : Values S N → List (Value S N)
  | nil => []
  | cons v rest => v :: rest.toList

@[simp] theorem toList_ofList (vs : List (Value S N)) : (ofList vs).toList = vs := by
  induction vs with
  | nil => rfl
  | cons v rest ih => rw [ofList, toList, ih]

@[simp] theorem ofList_toList : ∀ vs : Values S N, ofList vs.toList = vs
  | nil => rfl
  | cons v rest => by rw [toList, ofList, ofList_toList rest]

end Values

namespace Members

/-- The members of an object, in their order. -/
def ofList : List (S × Value S N) → Members S N
  | [] => nil
  | (k, v) :: rest => cons k v (ofList rest)

/-- The members of an object as a list. -/
def toList : Members S N → List (S × Value S N)
  | nil => []
  | cons k v rest => (k, v) :: rest.toList

@[simp] theorem toList_ofList (ms : List (S × Value S N)) : (ofList ms).toList = ms := by
  induction ms with
  | nil => rfl
  | cons m rest ih => rw [ofList, toList, ih]

@[simp] theorem ofList_toList : ∀ ms : Members S N, ofList ms.toList = ms
  | nil => rfl
  | cons k v rest => by rw [toList, ofList, ofList_toList rest]

/-- The value of a member; of members with one key the last one counts. -/
def get? [DecidableEq S] (ms : Members S N) (key : S) : Option (Value S N) :=
  (ms.toList.reverse.find? fun m => m.1 = key).map Prod.snd

section

variable [DecidableEq S]

theorem get?_cons (k : S) (v : Value S N) (rest : Members S N) (key : S) :
    (cons k v rest).get? key = (rest.get? key).or (if k = key then some v else none) := by
  rw [get?, get?, toList, List.reverse_cons, List.find?_append, List.find?_singleton]
  by_cases same : k = key
  · cases (rest.toList.reverse.find? fun m => decide (m.1 = key)) <;> simp [same]
  · cases (rest.toList.reverse.find? fun m => decide (m.1 = key)) <;> simp [same]

end

end Members

namespace Value

/-- An array of these values. -/
def array (items : List (Value S N)) : Value S N := .arr (.ofList items)

/-- An object with these members. -/
def object (members : List (S × Value S N)) : Value S N := .obj (.ofList members)

/-- `value.key`; `none` is `undefined`. -/
def get? [DecidableEq S] (key : S) : Value S N → Option (Value S N)
  | .obj members => members.get? key
  | _ => none

end Value

mutual

/-- The tokens of a value in the order in which they are written. -/
def Value.tokens : Value S N → List (Token S N)
  | .null => [.null]
  | .bool b => [.bool b]
  | .num n => [.num n]
  | .str s => [.str s]
  | .arr .nil => [.openArray, .closeArray]
  | .arr (.cons v rest) => .openArray :: (v.tokens ++ rest.tailTokens)
  | .obj .nil => [.openObject, .closeObject]
  | .obj (.cons k v rest) => .openObject :: .str k :: .colon :: (v.tokens ++ rest.tailTokens)

/-- The elements after the first one, and the closing bracket. -/
def Values.tailTokens : Values S N → List (Token S N)
  | .nil => [.closeArray]
  | .cons v rest => .comma :: (v.tokens ++ rest.tailTokens)

/-- The members after the first one, and the closing brace. -/
def Members.tailTokens : Members S N → List (Token S N)
  | .nil => [.closeObject]
  | .cons k v rest => .comma :: .str k :: .colon :: (v.tokens ++ rest.tailTokens)

end

/-! ### From tokens to a value -/

/-- What has been read of an array or an object when a value in it begins. -/
inductive Frame (S N : Type)
  | element (before : List (Value S N))
  | member (before : List (S × Value S N)) (key : S)

mutual

/-- A value is expected, inside of these arrays and objects. -/
def value : List (Frame S N) → List (Token S N) → Option (Value S N)
  | st, .null :: rest => after st .null rest
  | st, .bool b :: rest => after st (.bool b) rest
  | st, .num n :: rest => after st (.num n) rest
  | st, .str s :: rest => after st (.str s) rest
  | st, .openArray :: .closeArray :: rest => after st (.arr .nil) rest
  | st, .openArray :: rest => value (.element [] :: st) rest
  | st, .openObject :: .closeObject :: rest => after st (.obj .nil) rest
  | st, .openObject :: .str k :: .colon :: rest => value (.member [] k :: st) rest
  | _, _ => none

/-- A value has been read, inside of these arrays and objects. -/
def after : List (Frame S N) → Value S N → List (Token S N) → Option (Value S N)
  | [], v, [] => some v
  | .element before :: st, v, .comma :: rest => value (.element (before ++ [v]) :: st) rest
  | .element before :: st, v, .closeArray :: rest =>
      after st (.array (before ++ [v])) rest
  | .member before k :: st, v, .comma :: .str k' :: .colon :: rest =>
      value (.member (before ++ [(k, v)]) k' :: st) rest
  | .member before k :: st, v, .closeObject :: rest =>
      after st (.object (before ++ [(k, v)])) rest
  | _, _, _ => none

end

/-- The first token of a value closes nothing. -/
private theorem tokens_eq_cons (v : Value S N) :
    ∃ t ts, v.tokens = t :: ts ∧ t ≠ .closeArray := by
  match v with
  | .null => exact ⟨_, _, rfl, nofun⟩
  | .bool _ => exact ⟨_, _, rfl, nofun⟩
  | .num _ => exact ⟨_, _, rfl, nofun⟩
  | .str _ => exact ⟨_, _, rfl, nofun⟩
  | .arr .nil => exact ⟨_, _, rfl, nofun⟩
  | .arr (.cons _ _) => exact ⟨_, _, rfl, nofun⟩
  | .obj .nil => exact ⟨_, _, rfl, nofun⟩
  | .obj (.cons _ _ _) => exact ⟨_, _, rfl, nofun⟩

private theorem value_openArray (st : List (Frame S N)) (v : Value S N)
    (rest : List (Token S N)) :
    value st (.openArray :: (v.tokens ++ rest)) = value (.element [] :: st) (v.tokens ++ rest) := by
  obtain ⟨t, ts, tokens, opens⟩ := tokens_eq_cons v
  rw [tokens, List.cons_append, value.eq_6]
  exact fun rest' same => opens (List.cons.inj same).1

mutual

/-- **The tokens of a value are read as the value**, wherever it stands. -/
theorem value_tokens : ∀ (v : Value S N) (st : List (Frame S N)) (rest : List (Token S N)),
    value st (v.tokens ++ rest) = after st v rest
  | .null, _, _ => by rw [Value.tokens, List.singleton_append, value]
  | .bool _, _, _ => by rw [Value.tokens, List.singleton_append, value]
  | .num _, _, _ => by rw [Value.tokens, List.singleton_append, value]
  | .str _, _, _ => by rw [Value.tokens, List.singleton_append, value]
  | .arr .nil, _, _ => by
      rw [Value.tokens, List.cons_append, List.singleton_append, value]
  | .obj .nil, _, _ => by
      rw [Value.tokens, List.cons_append, List.singleton_append, value]
  | .arr (.cons v items), st, rest => by
      rw [Value.tokens, List.cons_append, List.append_assoc, value_openArray, value_tokens v,
        after_tailTokens items]
      rw [List.nil_append, Value.array, Values.ofList, Values.ofList_toList]
  | .obj (.cons k v members), st, rest => by
      rw [Value.tokens, List.cons_append, List.cons_append, List.cons_append, List.append_assoc,
        value, value_tokens v, after_tailTokens' members]
      rw [List.nil_append, Value.object, Members.ofList, Members.ofList_toList]

theorem after_tailTokens : ∀ (items : Values S N) (before : List (Value S N)) (v : Value S N)
    (st : List (Frame S N)) (rest : List (Token S N)),
    after (.element before :: st) v (items.tailTokens ++ rest) =
      after st (.array (before ++ v :: items.toList)) rest
  | .nil, before, v, st, rest => by
      rw [Values.tailTokens, List.singleton_append, after, Values.toList]
  | .cons w items, before, v, st, rest => by
      rw [Values.tailTokens, List.cons_append, List.append_assoc, after, value_tokens w,
        after_tailTokens items, Values.toList, List.append_assoc, List.singleton_append]

theorem after_tailTokens' : ∀ (members : Members S N) (before : List (S × Value S N)) (k : S)
    (v : Value S N) (st : List (Frame S N)) (rest : List (Token S N)),
    after (.member before k :: st) v (members.tailTokens ++ rest) =
      after st (.object (before ++ (k, v) :: members.toList)) rest
  | .nil, before, k, v, st, rest => by
      rw [Members.tailTokens, List.singleton_append, after, Members.toList]
  | .cons k' w members, before, k, v, st, rest => by
      rw [Members.tailTokens, List.cons_append, List.cons_append, List.cons_append,
        List.append_assoc, after, value_tokens w, after_tailTokens' members, Members.toList,
        List.append_assoc, List.singleton_append]

end

/-! ### From a text to tokens -/

/-- How strings and numbers are written. -/
structure Writer (S N : Type) where
  /-- What stands behind the opening quote, the closing one included. -/
  inside : S → Units
  numeral : N → Units

/-- What is taken for a string or a number at the beginning of a text, and what is left. -/
structure Reader (S M : Type) where
  /-- Behind the opening quote. -/
  string : Units → Option (S × Units)
  number : Units → Option (M × Units)

/-- The four characters that may stand between tokens. -/
def isBlank (u : UInt16) : Bool := u = 0x20 || u = 0x09 || u = 0x0a || u = 0x0d

/-- A decimal digit. -/
def isDigit (u : UInt16) : Bool := 0x30 ≤ u.toNat && u.toNat < 0x3a

/-- Whether a numeral may begin with this unit. -/
def startsNumeral (u : UInt16) : Bool := isDigit u || u = 0x2d

/-- Whether a numeral may go on with this unit. -/
def continuesNumeral (u : UInt16) : Bool :=
  startsNumeral u || u = 0x2b || u = 0x2e || u = 0x65 || u = 0x45

/-- A numeral in front of this text ends there. -/
def Stops (text : Units) : Prop := ∀ u ∈ text.head?, continuesNumeral u = false

namespace Writer

variable (W : Writer S N)

/-- The code units of a token; the closing quote of a string belongs to what `inside` writes. -/
def text : Token S N → Units
  | .null => [0x6e, 0x75, 0x6c, 0x6c]
  | .bool true => [0x74, 0x72, 0x75, 0x65]
  | .bool false => [0x66, 0x61, 0x6c, 0x73, 0x65]
  | .num n => W.numeral n
  | .str s => 0x22 :: W.inside s
  | .openArray => [0x5b]
  | .closeArray => [0x5d]
  | .openObject => [0x7b]
  | .closeObject => [0x7d]
  | .comma => [0x2c]
  | .colon => [0x3a]

/-- A text of these tokens, with blanks anywhere between them. -/
inductive Laid : List (Token S N) → Units → Prop
  | nil {blanks : Units} (blank : ∀ u ∈ blanks, isBlank u = true) : Laid [] blanks
  | cons {blanks : Units} {t : Token S N} {ts : List (Token S N)} {text : Units}
      (blank : ∀ u ∈ blanks, isBlank u = true) (rest : Laid ts text)
      (stops : ∀ n, t = .num n → Stops text) : Laid (t :: ts) (blanks ++ (W.text t ++ text))

/-- `JSON.stringify`: no blanks. -/
def stringify (v : Value S N) : Units := v.tokens.flatMap W.text

end Writer

namespace Reader

variable (R : Reader S M)

/-- A keyword whose first letter has been read. -/
def word (letters : Units) (t : Token S M) (rest : Units) : Option (Token S M × Units) :=
  if letters.isPrefixOf rest then some (t, rest.drop letters.length) else none

/-- The token that begins with `u`, and what is left. -/
def token (u : UInt16) (rest : Units) : Option (Token S M × Units) :=
  if u = 0x5b then some (.openArray, rest)
  else if u = 0x5d then some (.closeArray, rest)
  else if u = 0x7b then some (.openObject, rest)
  else if u = 0x7d then some (.closeObject, rest)
  else if u = 0x2c then some (.comma, rest)
  else if u = 0x3a then some (.colon, rest)
  else if u = 0x22 then (R.string rest).map fun x => (.str x.1, x.2)
  else if u = 0x6e then word [0x75, 0x6c, 0x6c] .null rest
  else if u = 0x74 then word [0x72, 0x75, 0x65] (.bool true) rest
  else if u = 0x66 then word [0x61, 0x6c, 0x73, 0x65] (.bool false) rest
  else if startsNumeral u then (R.number (u :: rest)).map fun x => (.num x.1, x.2)
  else none

/-- The tokens of a text, of which there are at most that many. -/
def lexFrom : ℕ → Units → Option (List (Token S M))
  | 0, us => if us.dropWhile isBlank = [] then some [] else none
  | fuel + 1, us =>
      match us.dropWhile isBlank with
      | [] => some []
      | u :: rest =>
          (R.token u rest).bind fun x => (lexFrom fuel x.2).map fun ts => x.1 :: ts

/-- The tokens of a whole text. -/
def lex (us : Units) : Option (List (Token S M)) := R.lexFrom us.length us

/-- `JSON.parse`; `none` is a `SyntaxError`. -/
def read (us : Units) : Option (Value S M) := (R.lex us).bind (value [])

end Reader

/-! ### Reading what was written -/

/-- What a reader makes of what a writer writes: it reads the strings that it accepts, and the
numbers as what they are for it. -/
structure Reads (W : Writer S N) (R : Reader S M) (ok : S → Bool) (cast : N → M) : Prop where
  string : ∀ s rest, R.string (W.inside s ++ rest) = if ok s then some (s, rest) else none
  number : ∀ n rest, Stops rest → R.number (W.numeral n ++ rest) = some (cast n, rest)
  starts : ∀ n, ∃ u us, W.numeral n = u :: us ∧ startsNumeral u = true

/-- The token with another number. -/
def Token.map (cast : N → M) : Token S N → Token S M
  | null => null
  | bool b => bool b
  | num n => num (cast n)
  | str s => str s
  | openArray => openArray
  | closeArray => closeArray
  | openObject => openObject
  | closeObject => closeObject
  | comma => comma
  | colon => colon

/-- A test of the strings among the tokens. -/
def Token.accepted (ok : S → Bool) : Token S N → Bool
  | str s => ok s
  | _ => true

mutual

/-- The value with other numbers. -/
def Value.map (cast : N → M) : Value S N → Value S M
  | .null => .null
  | .bool b => .bool b
  | .num n => .num (cast n)
  | .str s => .str s
  | .arr items => .arr (items.map cast)
  | .obj members => .obj (members.map cast)

/-- Cast the numbers in an array. -/
def Values.map (cast : N → M) : Values S N → Values S M
  | .nil => .nil
  | .cons v rest => .cons (v.map cast) (rest.map cast)

/-- Cast the numbers in an object. -/
def Members.map (cast : N → M) : Members S N → Members S M
  | .nil => .nil
  | .cons k v rest => .cons k (v.map cast) (rest.map cast)

end

mutual

/-- Values are told apart by what becomes of their numbers. -/
theorem map_injective {cast : N → M} (injective : Function.Injective cast) :
    ∀ {v w : Value S N}, v.map cast = w.map cast → v = w
  | .null, w, same => by cases w <;> cases same; rfl
  | .bool _, w, same => by cases w <;> cases same; rfl
  | .str _, w, same => by cases w <;> cases same; rfl
  | .num n, w, same => by
      cases w with
      | num m => exact congrArg Value.num (injective (Value.num.inj same))
      | _ => cases same
  | .arr items, w, same => by
      cases w with
      | arr items' => exact congrArg Value.arr (map_injective' injective (Value.arr.inj same))
      | _ => cases same
  | .obj members, w, same => by
      cases w with
      | obj members' => exact congrArg Value.obj (map_injective'' injective (Value.obj.inj same))
      | _ => cases same

theorem map_injective' {cast : N → M} (injective : Function.Injective cast) :
    ∀ {items items' : Values S N}, items.map cast = items'.map cast → items = items'
  | .nil, .nil, _ => rfl
  | .nil, .cons _ _, same => by cases same
  | .cons _ _, .nil, same => by cases same
  | .cons v rest, .cons w rest', same => by
      obtain ⟨head, tail⟩ := Values.cons.inj same
      rw [map_injective injective head, map_injective' injective tail]

theorem map_injective'' {cast : N → M} (injective : Function.Injective cast) :
    ∀ {members members' : Members S N}, members.map cast = members'.map cast → members = members'
  | .nil, .nil, _ => rfl
  | .nil, .cons _ _ _, same => by cases same
  | .cons _ _ _, .nil, same => by cases same
  | .cons k v rest, .cons k' w rest', same => by
      obtain ⟨key, head, tail⟩ := Members.cons.inj same
      rw [key, map_injective injective head, map_injective'' injective tail]

end

section

variable {K : Type} (cast : N → M) (cast' : M → K)

mutual

/-- The numbers of a value replaced twice. -/
theorem map_map : ∀ v : Value S N, (v.map cast).map cast' = v.map (cast' ∘ cast)
  | .null => rfl
  | .bool _ => rfl
  | .num _ => rfl
  | .str _ => rfl
  | .arr items => congrArg Value.arr (map_map' items)
  | .obj members => congrArg Value.obj (map_map'' members)

theorem map_map' : ∀ items : Values S N, (items.map cast).map cast' = items.map (cast' ∘ cast)
  | .nil => rfl
  | .cons v rest => congrArg₂ Values.cons (map_map v) (map_map' rest)

theorem map_map'' : ∀ members : Members S N,
    (members.map cast).map cast' = members.map (cast' ∘ cast)
  | .nil => rfl
  | .cons k v rest => congrArg₂ (Members.cons k) (map_map v) (map_map'' rest)

end

end

/-- Every string in the value is accepted. -/
def Value.accepted (ok : S → Bool) (v : Value S N) : Bool := v.tokens.all (Token.accepted ok)

mutual

theorem tokens_map (cast : N → M) : ∀ v : Value S N,
    (v.map cast).tokens = v.tokens.map (Token.map cast)
  | .null => rfl
  | .bool _ => rfl
  | .num _ => rfl
  | .str _ => rfl
  | .arr .nil => rfl
  | .obj .nil => rfl
  | .arr (.cons v items) => by
      rw [Value.map, Values.map, Value.tokens, Value.tokens, List.map_cons, List.map_append,
        tokens_map cast v, tailTokens_map cast items]
      rfl
  | .obj (.cons k v members) => by
      rw [Value.map, Members.map, Value.tokens, Value.tokens, List.map_cons, List.map_cons,
        List.map_cons, List.map_append, tokens_map cast v, tailTokens_map' cast members]
      rfl

theorem tailTokens_map (cast : N → M) : ∀ items : Values S N,
    (items.map cast).tailTokens = items.tailTokens.map (Token.map cast)
  | .nil => rfl
  | .cons v items => by
      rw [Values.map, Values.tailTokens, Values.tailTokens, List.map_cons, List.map_append,
        tokens_map cast v, tailTokens_map cast items]
      rfl

theorem tailTokens_map' (cast : N → M) : ∀ members : Members S N,
    (members.map cast).tailTokens = members.tailTokens.map (Token.map cast)
  | .nil => rfl
  | .cons k v members => by
      rw [Members.map, Members.tailTokens, Members.tailTokens, List.map_cons, List.map_cons,
        List.map_cons, List.map_append, tokens_map cast v, tailTokens_map' cast members]
      rfl

end

section

variable {W : Writer S N} {R : Reader S M} {ok : S → Bool} {cast : N → M}

theorem Reader.token_word (letters : Units) (t : Token S M) (rest : Units) :
    Reader.word letters t (letters ++ rest) = some (t, rest) := by
  rw [word, if_pos (List.isPrefixOf_iff_prefix.mpr (List.prefix_append letters rest)),
    List.drop_left]

/-- One token is read as it was written. -/
theorem Reads.token (reads : Reads W R ok cast) (t : Token S N) {rest : Units}
    (stops : ∀ n, t = .num n → Stops rest) :
    ∃ u us, W.text t ++ rest = u :: us ∧ isBlank u = false ∧
      R.token u us = if t.accepted ok then some (t.map cast, rest) else none := by
  cases t with
  | null => exact ⟨_, _, rfl, rfl, Reader.token_word [0x75, 0x6c, 0x6c] .null rest⟩
  | bool b =>
      cases b with
      | true => exact ⟨_, _, rfl, rfl, Reader.token_word [0x72, 0x75, 0x65] (.bool true) rest⟩
      | false =>
          exact ⟨_, _, rfl, rfl, Reader.token_word [0x61, 0x6c, 0x73, 0x65] (.bool false) rest⟩
  | str s =>
      refine ⟨_, _, rfl, rfl, ?_⟩
      show (R.string (W.inside s ++ rest)).map _ = _
      rw [reads.string, Token.accepted]
      cases ok s <;> rfl
  | num n =>
      obtain ⟨u, us, numeral, starts⟩ := reads.starts n
      have read := reads.number n rest (stops n rfl)
      rw [numeral, List.cons_append] at read
      refine ⟨u, us ++ rest, by rw [Writer.text, numeral, List.cons_append], ?_, ?_⟩
      · by_contra blank
        simp only [isBlank, Bool.not_eq_false, Bool.or_eq_true, decide_eq_true_eq] at blank
        rcases blank with ((rfl | rfl) | rfl) | rfl <;> cases starts
      · have other : ∀ v : UInt16, startsNumeral v = false → u ≠ v := by
          rintro v no rfl
          exact Bool.false_ne_true (no.symm.trans starts)
        rw [Reader.token, if_neg (other _ rfl), if_neg (other _ rfl), if_neg (other _ rfl),
          if_neg (other _ rfl), if_neg (other _ rfl), if_neg (other _ rfl), if_neg (other _ rfl),
          if_neg (other _ rfl), if_neg (other _ rfl), if_neg (other _ rfl), if_pos starts, read]
        rfl
  | openArray => exact ⟨_, _, rfl, rfl, rfl⟩
  | closeArray => exact ⟨_, _, rfl, rfl, rfl⟩
  | openObject => exact ⟨_, _, rfl, rfl, rfl⟩
  | closeObject => exact ⟨_, _, rfl, rfl, rfl⟩
  | comma => exact ⟨_, _, rfl, rfl, rfl⟩
  | colon => exact ⟨_, _, rfl, rfl, rfl⟩

theorem dropWhile_blanks {blanks : Units} (blank : ∀ u ∈ blanks, isBlank u = true) (us : Units) :
    (blanks ++ us).dropWhile isBlank = us.dropWhile isBlank :=
  List.dropWhile_append_of_pos blank

/-- **The tokens of a text**, wherever its blanks stand. -/
theorem Reads.lexFrom (reads : Reads W R ok cast) {ts : List (Token S N)} {us : Units}
    (laid : W.Laid ts us) : ∀ fuel, ts.length ≤ fuel →
      R.lexFrom fuel us =
        if ts.all (Token.accepted ok) then some (ts.map (Token.map cast)) else none := by
  induction laid with
  | nil blank =>
      intro fuel _
      have gone := dropWhile_blanks blank []
      rw [List.append_nil, List.dropWhile_nil] at gone
      cases fuel with
      | zero => exact if_pos gone
      | succ fuel =>
          rw [Reader.lexFrom, gone]
          rfl
  | @cons blanks t ts text blank rest stops ih =>
      intro fuel enough
      obtain ⟨u, us, first, visible, read⟩ := reads.token t stops
      obtain ⟨fuel, rfl⟩ : ∃ n, fuel = n + 1 := Nat.exists_eq_add_one.mpr (by
        rw [List.length_cons] at enough
        omega)
      have here : (blanks ++ (W.text t ++ text)).dropWhile isBlank = u :: us := by
        rw [dropWhile_blanks blank, first, List.dropWhile_cons_of_neg]
        rw [visible]
        exact Bool.false_ne_true
      rw [Reader.lexFrom, here]
      show (R.token u us).bind _ = _
      rw [read, List.all_cons]
      cases accepted : t.accepted ok with
      | false => rfl
      | true =>
          have further := ih fuel (Nat.le_of_succ_le_succ enough)
          show (R.lexFrom fuel text).map _ = _
          rw [further, Bool.true_and]
          cases ts.all (Token.accepted ok) <;> rfl

theorem length_le_of_laid (reads : Reads W R ok cast) {ts : List (Token S N)} {us : Units}
    (laid : W.Laid ts us) : ts.length ≤ us.length := by
  induction laid with
  | nil => exact Nat.zero_le _
  | @cons blanks t ts text blank rest stops ih =>
      obtain ⟨u, us, first, -⟩ := reads.token t stops
      have long := congrArg List.length first
      rw [List.length_append, List.length_cons] at long
      have positive : 0 < (W.text t).length := by
        cases t with
        | num n =>
            obtain ⟨u, us, numeral, -⟩ := reads.starts n
            rw [Writer.text, numeral]
            exact Nat.succ_pos _
        | bool b => cases b <;> exact Nat.succ_pos _
        | _ => exact Nat.succ_pos _
      rw [List.length_append, List.length_append, List.length_cons]
      omega

/-- **A text is read as the value that it was written for**, wherever its blanks stand, if all its
strings are accepted; and is rejected otherwise. -/
theorem read_laid (reads : Reads W R ok cast) {v : Value S N} {us : Units}
    (laid : W.Laid v.tokens us) :
    R.read us = if v.accepted ok then some (v.map cast) else none := by
  rw [Reader.read, Reader.lex, reads.lexFrom laid _ (length_le_of_laid reads laid), Value.accepted]
  split
  · have tokens := value_tokens (v.map cast) [] []
    rw [List.append_nil, tokens_map] at tokens
    exact tokens.trans (by rw [after])
  · rfl

end

section

variable {W : Writer S N}

/-- No blanks in front of a token. -/
private theorem Writer.Laid.next {t : Token S N} {ts : List (Token S N)} {us : Units}
    (rest : W.Laid ts us) (stops : ∀ n, t = .num n → Stops us) :
    W.Laid (t :: ts) (W.text t ++ us) :=
  @Laid.cons _ _ _ [] _ _ _ (fun _ mem => nomatch mem) rest stops

private theorem stops_cons {u : UInt16} {us : Units} (ends : continuesNumeral u = false) :
    Stops (u :: us) := by
  rintro v ⟨⟩
  exact ends

private theorem stops_tail (items : Values S N) (us : Units) :
    Stops (items.tailTokens.flatMap W.text ++ us) := by
  cases items with
  | nil => exact stops_cons rfl
  | cons v items => exact stops_cons rfl

private theorem stops_tail' (members : Members S N) (us : Units) :
    Stops (members.tailTokens.flatMap W.text ++ us) := by
  cases members with
  | nil => exact stops_cons rfl
  | cons k v members => exact stops_cons rfl

mutual

theorem laid_tokens : ∀ (v : Value S N) {ts : List (Token S N)} {us : Units}, W.Laid ts us →
    Stops us → W.Laid (v.tokens ++ ts) (v.tokens.flatMap W.text ++ us)
  | .null, _, _, rest, _ => rest.next nofun
  | .bool true, _, _, rest, _ => rest.next (t := .bool true) nofun
  | .bool false, _, _, rest, _ => rest.next (t := .bool false) nofun
  | .num n, ts, us, rest, stops => by
      rw [Value.tokens, List.singleton_append, List.flatMap_singleton]
      exact rest.next fun _ _ => stops
  | .str s, ts, us, rest, _ => by
      rw [Value.tokens, List.singleton_append, List.flatMap_singleton]
      exact rest.next nofun
  | .arr .nil, _, _, rest, _ => (rest.next (t := .closeArray) nofun).next (t := .openArray) nofun
  | .obj .nil, _, _, rest, _ => (rest.next (t := .closeObject) nofun).next (t := .openObject) nofun
  | .arr (.cons v items), _, us, rest, _ => by
      have tail := laid_tailTokens items rest
      have head := laid_tokens v tail (stops_tail items us)
      rw [Value.tokens, List.flatMap_cons, List.flatMap_append, List.cons_append,
        List.append_assoc, List.append_assoc, List.append_assoc]
      exact head.next (t := .openArray) nofun
  | .obj (.cons k v members), _, us, rest, _ => by
      have tail := laid_tailTokens' members rest
      have head := laid_tokens v tail (stops_tail' members us)
      rw [Value.tokens, List.flatMap_cons, List.flatMap_cons, List.flatMap_cons,
        List.flatMap_append, List.cons_append, List.cons_append, List.cons_append]
      simp only [List.append_assoc]
      exact ((head.next (t := .colon) nofun).next (t := .str k) nofun).next (t := .openObject) nofun

theorem laid_tailTokens : ∀ (items : Values S N) {ts : List (Token S N)} {us : Units},
    W.Laid ts us → W.Laid (items.tailTokens ++ ts) (items.tailTokens.flatMap W.text ++ us)
  | .nil, _, _, rest => rest.next (t := .closeArray) nofun
  | .cons v items, _, us, rest => by
      have tail := laid_tailTokens items rest
      have head := laid_tokens v tail (stops_tail items us)
      rw [Values.tailTokens, List.flatMap_cons, List.flatMap_append, List.cons_append,
        List.append_assoc, List.append_assoc, List.append_assoc]
      exact head.next (t := .comma) nofun

theorem laid_tailTokens' : ∀ (members : Members S N) {ts : List (Token S N)} {us : Units},
    W.Laid ts us → W.Laid (members.tailTokens ++ ts) (members.tailTokens.flatMap W.text ++ us)
  | .nil, _, _, rest => rest.next (t := .closeObject) nofun
  | .cons k v members, _, us, rest => by
      have tail := laid_tailTokens' members rest
      have head := laid_tokens v tail (stops_tail' members us)
      rw [Members.tailTokens, List.flatMap_cons, List.flatMap_cons, List.flatMap_cons,
        List.flatMap_append, List.cons_append, List.cons_append, List.cons_append]
      simp only [List.append_assoc]
      exact ((head.next (t := .colon) nofun).next (t := .str k) nofun).next (t := .comma) nofun

end

/-- A text without blanks. -/
theorem laid_stringify (v : Value S N) : W.Laid v.tokens (W.stringify v) := by
  have laid := laid_tokens (W := W) v (@Writer.Laid.nil _ _ _ [] fun _ mem => nomatch mem) nofun
  rw [List.append_nil, List.append_nil] at laid
  exact laid

/-- Reading what was written without blanks. -/
theorem read_stringify {R : Reader S M} {ok : S → Bool} {cast : N → M} (reads : Reads W R ok cast)
    (v : Value S N) :
    R.read (W.stringify v) = if v.accepted ok then some (v.map cast) else none :=
  read_laid reads (laid_stringify v)

end

/-! ### Accepted values -/

section

variable {ok : S → Bool}

private theorem all_tailTokens (vs : List (Value S N)) :
    (Values.ofList vs).tailTokens.all (Token.accepted ok) = vs.all (Value.accepted ok) := by
  induction vs with
  | nil => rfl
  | cons v vs ih =>
      rw [Values.ofList, Values.tailTokens, List.all_cons, List.all_append, ih, List.all_cons]
      exact Bool.true_and _

/-- An array is accepted if its elements are. -/
theorem accepted_array (vs : List (Value S N)) :
    (Value.array vs).accepted ok = vs.all (Value.accepted ok) := by
  cases vs with
  | nil => rfl
  | cons v vs =>
      rw [Value.accepted, Value.array, Values.ofList, Value.tokens, List.all_cons, List.all_append,
        all_tailTokens, List.all_cons]
      exact Bool.true_and _

private theorem all_tailTokens' (ms : List (S × Value S N)) :
    (Members.ofList ms).tailTokens.all (Token.accepted ok) =
      ms.all fun m => ok m.1 && m.2.accepted ok := by
  induction ms with
  | nil => rfl
  | cons m ms ih =>
      rw [Members.ofList, Members.tailTokens, List.all_cons, List.all_cons, List.all_cons,
        List.all_append, ih, List.all_cons, Bool.and_assoc]
      rfl

/-- An object is accepted if its keys and its values are. -/
theorem accepted_object (ms : List (S × Value S N)) :
    (Value.object ms).accepted ok = ms.all fun m => ok m.1 && m.2.accepted ok := by
  cases ms with
  | nil => rfl
  | cons m ms =>
      rw [Value.accepted, Value.object, Members.ofList, Value.tokens, List.all_cons, List.all_cons,
        List.all_cons, List.all_append, all_tailTokens', List.all_cons, Bool.and_assoc]
      rfl

theorem accepted_str (s : S) : (Value.str s : Value S N).accepted ok = ok s := Bool.and_true _

theorem accepted_num (n : N) : (Value.num n : Value S N).accepted ok = true := rfl

end

end JsonText

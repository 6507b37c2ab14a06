import Mathlib.Data.Char
import Mathlib.Data.List.Lex

/-!
This module contains JSON: values whose numbers keep their spelling, the compact text that
`encoding/json` writes for them, and the parser.
-/

namespace Json

structure Number where
  negative : Bool
  whole : List Char
  fraction : List Char
  exponent : Option (List Char × List Char)
  wholeOk : whole = ['0'] ∨ (whole ≠ [] ∧ whole.head? ≠ some '0' ∧ ∀ c ∈ whole, c.isDigit)
  fractionOk : ∀ c ∈ fraction, c.isDigit
  exponentOk : ∀ e ∈ exponent, e.1 ∈ [['e'], ['e', '+'], ['e', '-'], ['E'], ['E', '+'], ['E', '-']]
    ∧ e.2 ≠ [] ∧ ∀ c ∈ e.2, c.isDigit
  deriving DecidableEq

namespace Number

def fractionText (n : Number) : List Char := if n.fraction = [] then [] else '.' :: n.fraction

def exponentText (n : Number) : List Char :=
  match n.exponent with
  | none => []
  | some (mark, digits) => mark ++ digits

def text (n : Number) : List Char :=
  (if n.negative then ['-'] else []) ++ n.whole ++ n.fractionText ++ n.exponentText

def isMark (mark : List Char) : Bool :=
  [['e'], ['e', '+'], ['e', '-'], ['E'], ['E', '+'], ['E', '-']].contains mark

def mk? (negative : Bool) (whole fraction : List Char) (exponent : Option (List Char × List Char))
    : Option Number :=
  if hw : whole = ['0'] ∨ (whole ≠ [] ∧ whole.head? ≠ some '0' ∧ whole.all Char.isDigit) then
    if hf : fraction.all Char.isDigit then
      if he : ∀ e ∈ exponent, isMark e.1 ∧ e.2 ≠ [] ∧ e.2.all Char.isDigit then
        some { negative, whole, fraction, exponent, wholeOk := by rw [← List.all_eq_true]; exact hw,
               fractionOk := List.all_eq_true.mp hf,
               exponentOk := fun e h => ⟨List.contains_iff_mem.mp (he e h).1, (he e h).2.1,
                 List.all_eq_true.mp (he e h).2.2⟩ }
      else
        none
    else
      none
  else
    none

def scanSign (s : List Char) : Bool × List Char :=
  match s with
  | '-' :: s => (true, s)
  | s => (false, s)

def scanWhole (s : List Char) : List Char × List Char :=
  match s with
  | '0' :: s => (['0'], s)
  | s => (s.takeWhile Char.isDigit, s.dropWhile Char.isDigit)

def scanFraction (s : List Char) : Option (List Char × List Char) :=
  match s with
  | '.' :: s =>
    if s.takeWhile Char.isDigit = [] then none else some (s.takeWhile Char.isDigit, s.dropWhile Char.isDigit)
  | s => some ([], s)

def scanExponentSign (s : List Char) : List Char × List Char :=
  match s with
  | '+' :: s => (['+'], s)
  | '-' :: s => (['-'], s)
  | s => ([], s)

def scanExponent (s : List Char) : Option (List Char × List Char) × List Char :=
  match s with
  | 'e' :: s =>
    let (sign, s) := scanExponentSign s
    (some ('e' :: sign, s.takeWhile Char.isDigit), s.dropWhile Char.isDigit)
  | 'E' :: s =>
    let (sign, s) := scanExponentSign s
    (some ('E' :: sign, s.takeWhile Char.isDigit), s.dropWhile Char.isDigit)
  | s => (none, s)

def scan (s : List Char) : Option (Number × List Char) :=
  let (negative, s) := scanSign s
  let (whole, s) := scanWhole s
  match scanFraction s with
  | none => none
  | some (fraction, s) =>
    let (exponent, s) := scanExponent s
    (mk? negative whole fraction exponent).map fun n => (n, s)

end Number

end Json

open Json (Number)

inductive Json where
  | null
  | bool (b : Bool)
  | num (n : Number)
  | str (s : List Char)
  | arr (items : List Json)
  | obj (members : List (List Char × Json))

namespace Json

def hex4 (n : Nat) : List Char :=
  [Nat.digitChar (n / 4096 % 16), Nat.digitChar (n / 256 % 16), Nat.digitChar (n / 16 % 16), Nat.digitChar (n % 16)]

def escapeChar (c : Char) : List Char :=
  match c with
  | '"' => ['\\', '"']
  | '\\' => ['\\', '\\']
  | '\x08' => ['\\', 'b']
  | '\x0c' => ['\\', 'f']
  | '\n' => ['\\', 'n']
  | '\r' => ['\\', 'r']
  | '\t' => ['\\', 't']
  | c =>
    if c.toNat < 0x20 ∨ c ∈ ['<', '>', '&', '\u2028', '\u2029'] then '\\' :: 'u' :: hex4 c.toNat else [c]

def quote (s : List Char) : List Char := '"' :: s.flatMap escapeChar ++ ['"']

mutual

def write : Json → List Char
  | null => ['n', 'u', 'l', 'l']
  | bool true => ['t', 'r', 'u', 'e']
  | bool false => ['f', 'a', 'l', 's', 'e']
  | num n => n.text
  | str s => quote s
  | arr [] => ['[', ']']
  | arr (x :: xs) => '[' :: write x ++ writeItems xs
  | obj [] => ['\x7b', '\x7d']
  | obj ((k, v) :: ms) => '\x7b' :: quote k ++ ':' :: write v ++ writeMembers ms

def writeItems : List Json → List Char
  | [] => [']']
  | x :: xs => ',' :: write x ++ writeItems xs

def writeMembers : List (List Char × Json) → List Char
  | [] => ['\x7d']
  | (k, v) :: ms => ',' :: quote k ++ ':' :: write v ++ writeMembers ms

end

inductive Piece where
  | char (c : Char)
  | code (n : Nat)

def hexDigit? (c : Char) : Option Nat :=
  if c.isDigit then some (c.toNat - '0'.toNat)
  else if 'a' ≤ c ∧ c ≤ 'f' then some (c.toNat - 'a'.toNat + 10)
  else if 'A' ≤ c ∧ c ≤ 'F' then some (c.toNat - 'A'.toNat + 10)
  else none

def hex4? (a b c d : Char) : Option Nat :=
  match hexDigit? a, hexDigit? b, hexDigit? c, hexDigit? d with
  | some a, some b, some c, some d => some (a * 4096 + b * 256 + c * 16 + d)
  | _, _, _, _ => none

def unescape? (c : Char) : Option Char :=
  match c with
  | '"' => some '"'
  | '\\' => some '\\'
  | '/' => some '/'
  | 'b' => some '\x08'
  | 'f' => some '\x0c'
  | 'n' => some '\n'
  | 'r' => some '\r'
  | 't' => some '\t'
  | _ => none

def consPiece (p : Option Piece) (rest : Option (List Piece × List Char))
    : Option (List Piece × List Char) :=
  match p, rest with
  | some p, some (ps, r) => some (p :: ps, r)
  | _, _ => none

def literal? (c : Char) : Option Piece := if c.toNat < 0x20 ∨ c = '\\' then none else some (.char c)

def pieces (s : List Char) : Option (List Piece × List Char) :=
  match s with
  | [] => none
  | '"' :: s => some ([], s)
  | '\\' :: 'u' :: a :: b :: c :: d :: s => consPiece ((hex4? a b c d).map .code) (pieces s)
  | '\\' :: e :: s => consPiece ((unescape? e).map .char) (pieces s)
  | c :: s => consPiece (literal? c) (pieces s)

def isHigh (n : Nat) : Bool := 0xd800 ≤ n && n < 0xdc00

def isLow (n : Nat) : Bool := 0xdc00 ≤ n && n < 0xe000

def join (ps : List Piece) : List Char :=
  match ps with
  | [] => []
  | .char c :: ps => c :: join ps
  | .code hi :: .code lo :: ps =>
    if isHigh hi ∧ isLow lo then
      Char.ofNat ((hi - 0xd800) * 0x400 + (lo - 0xdc00) + 0x10000) :: join ps
    else
      (if isHigh hi ∨ isLow hi then '\ufffd' else Char.ofNat hi) :: join (.code lo :: ps)
  | .code n :: ps => (if isHigh n ∨ isLow n then '\ufffd' else Char.ofNat n) :: join ps

def scanString (s : List Char) : Option (List Char × List Char) :=
  match pieces s with
  | none => none
  | some (ps, r) => some (join ps, r)

def skip (s : List Char) : List Char :=
  s.dropWhile fun c => c = ' ' ∨ c = '\t' ∨ c = '\r' ∨ c = '\n'

def scanColon (k : List Char) (s : List Char) : Option (List Char × List Char) :=
  match skip s with
  | ':' :: r => some (k, r)
  | _ => none

def scanKey (s : List Char) : Option (List Char × List Char) :=
  match skip s with
  | '"' :: s => (scanString s).bind fun (k, r) => scanColon k r
  | _ => none

def scanOpen (close : Char) (empty : Json) (more : List Char → Option (Json × List Char))
    (s : List Char)
    : Option (Json × List Char) :=
  match skip s with
  | [] => none
  | c :: r => if c = close then some (empty, r) else more (c :: r)

-- Every call is on a shorter rest, so the length of the text is enough fuel.
mutual

def scanValue (fuel : Nat) (s : List Char) : Option (Json × List Char) :=
  match fuel with
  | 0 => none
  | fuel + 1 =>
    match skip s with
    | 'n' :: 'u' :: 'l' :: 'l' :: r => some (null, r)
    | 't' :: 'r' :: 'u' :: 'e' :: r => some (bool true, r)
    | 'f' :: 'a' :: 'l' :: 's' :: 'e' :: r => some (bool false, r)
    | '"' :: r => (scanString r).map fun (s, r) => (str s, r)
    | '[' :: r =>
      scanOpen ']' (arr []) (fun r =>
        (scanValue fuel r).bind fun (x, r) =>
        (scanItems fuel r).map fun (xs, r) => (arr (x :: xs), r)) r
    | '\x7b' :: r =>
      scanOpen '\x7d' (obj []) (fun r =>
        (scanKey r).bind fun (k, r) =>
        (scanValue fuel r).bind fun (v, r) =>
        (scanMembers fuel r).map fun (ms, r) => (obj ((k, v) :: ms), r)) r
    | s => (Number.scan s).map fun (n, r) => (num n, r)

def scanItems (fuel : Nat) (s : List Char) : Option (List Json × List Char) :=
  match fuel with
  | 0 => none
  | fuel + 1 =>
    match skip s with
    | ']' :: r => some ([], r)
    | ',' :: r =>
      (scanValue fuel r).bind fun (x, r) =>
      (scanItems fuel r).map fun (xs, r) => (x :: xs, r)
    | _ => none

def scanMembers (fuel : Nat) (s : List Char) : Option (List (List Char × Json) × List Char) :=
  match fuel with
  | 0 => none
  | fuel + 1 =>
    match skip s with
    | '\x7d' :: r => some ([], r)
    | ',' :: r =>
      (scanKey r).bind fun (k, r) =>
      (scanValue fuel r).bind fun (v, r) =>
      (scanMembers fuel r).map fun (ms, r) => ((k, v) :: ms, r)
    | _ => none

end

def parse (s : List Char) : Option Json :=
  match scanValue s.length s with
  | none => none
  | some (v, r) => if skip r = [] then some v else none

def insertMember (k : List Char) (v : Json) (ms : List (List Char × Json))
    : List (List Char × Json) :=
  match ms with
  | [] => [(k, v)]
  | (k', v') :: ms =>
    if k = k' then (k, v) :: ms
    else if k < k' then (k, v) :: (k', v') :: ms
    else (k', v') :: insertMember k v ms

mutual

def canon : Json → Json
  | null => null
  | bool b => bool b
  | num n => num n
  | str s => str s
  | arr items => arr (canonItems items)
  | obj members => obj (canonMembers members [])

def canonItems : List Json → List Json
  | [] => []
  | x :: xs => canon x :: canonItems xs

def canonMembers : List (List Char × Json) → List (List Char × Json) → List (List Char × Json)
  | [], done => done
  | (k, v) :: ms, done => canonMembers ms (insertMember k (canon v) done)

end

end Json

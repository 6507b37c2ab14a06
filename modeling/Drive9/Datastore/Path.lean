import Mathlib.Data.List.DropRight

/-!
This module contains the paths of the namespace.
-/

abbrev Str := List Char

namespace Str

def trimSlash (s : Str) : Str := if s.getLast? = some '/' then s.dropLast else s

def trimSlashes (s : Str) : Str := (s.dropWhile (· = '/')).rdropWhile (· = '/')

def trimPrefix (s p : Str) : Str := if p <+: s then s.drop p.length else s

def dirPart (s : Str) : Str := s.rdropWhile (· ≠ '/')
def basePart (s : Str) : Str := s.rtakeWhile (· ≠ '/')

end Str

namespace PathPkg

def cleanSegment (rooted : Bool) (out : List Str) (seg : Str) : List Str :=
  if seg = [] ∨ seg = ['.'] then
    out
  else if seg = ['.', '.'] then
    match out.getLast? with
    | none => if rooted then [] else [seg]
    | some last => if last = ['.', '.'] then out ++ [seg] else out.dropLast
  else
    out ++ [seg]

def clean (p : Str) : Str :=
  let rooted := p.head? = some '/'
  let out := (p.splitOn '/').foldl (cleanSegment rooted) []
  let body := ['/'].intercalate out
  if rooted then '/' :: body else if body = [] then ['.'] else body

def dir (p : Str) : Str := clean p.dirPart

def base (p : Str) : Str :=
  if p = [] then
    ['.']
  else
    let name := Str.basePart (p.rdropWhile (· = '/'))
    if name = [] then ['/'] else name

end PathPkg

inductive PathError where
  | nul
  | controlCharacter (c : Char)
  | backslash
  | dotSegment (seg : Str)
  deriving DecidableEq

namespace Pathutil

def rooted (raw : Str) : Str := if raw.head? = some '/' then raw else '/' :: raw

def canonicalizeAs (nfc : Str → Str) (raw : Str) (isDir : Bool) : Except PathError Str :=
  if raw = [] ∨ raw = ['/'] then
    .ok ['/']
  else
    match raw.find? (fun c => c.toNat ≤ 0x1f) with
    | some c => .error (if c.toNat = 0 then .nul else .controlCharacter c)
    | none =>
      if '\\' ∈ raw then
        .error .backslash
      else
        match ((rooted raw).trimSlashes.splitOn '/').find? (fun seg => seg = ['.'] ∨ seg = ['.', '.']) with
        | some seg => .error (.dotSegment seg)
        | none =>
          if PathPkg.clean (rooted raw) = ['.'] then
            .ok ['/']
          else
            let cleaned := nfc (PathPkg.clean (rooted raw)).trimSlash
            .ok (if isDir ∧ cleaned ≠ ['/'] then cleaned ++ ['/'] else cleaned)

def canonicalize (nfc : Str → Str) (raw : Str) : Except PathError Str :=
  canonicalizeAs nfc raw false

def canonicalizeDir (nfc : Str → Str) (raw : Str) : Except PathError Str :=
  canonicalizeAs nfc raw true

def parentPath (p : Str) : Str :=
  if p = ['/'] then
    ['/']
  else
    let dir := PathPkg.dir p.trimSlash
    if dir = ['.'] then
      ['/']
    else if dir.getLast? = some '/' then
      dir
    else
      dir ++ ['/']

def baseName (p : Str) : Str := if p = ['/'] then ['/'] else PathPkg.base p.trimSlash

end Pathutil

namespace Datastore

def parentPath (p : Str) : Str :=
  if p = ['/'] then
    ['/']
  else
    let dir := p.trimSlash.dirPart
    if dir.length ≤ 1 then ['/'] else dir

def baseName (p : Str) : Str := p.trimSlash.basePart

end Datastore

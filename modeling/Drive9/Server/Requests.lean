import Drive9.Lib.Url

/-!
This module contains the dispatch of `handleFS`: which operation a request under `/v1/fs` selects,
on which paths and with which flags.
-/

namespace Server

open Octets

inductive Method where
  | get
  | put
  | head
  | delete
  | patch
  | post

structure FSRequest where
  method : Method
  path : Octets
  rawQuery : Octets
  copySource : Octets
  renameSource : Octets

inductive FSAction where
  | statMetadata (path : Octets)
  | grep (path : Octets)
  | find (path : Octets)
  | list (path : Octets)
  | read (path : Octets)
  | write (path : Octets)
  | stat (path : Octets)
  | remove (path : Octets)
  | removeFile (path : Octets)
  | removeDir (path : Octets)
  | removeAll (path : Octets)
  | patch (path : Octets)
  | append (path : Octets)
  | copy (srcPath dstPath : Octets)
  | rename (oldPath newPath : Octets)
  | mkdir (path : Octets) (mode : Nat)
  | chmod (path : Octets)
  | create (path : Octets)
  deriving DecidableEq

def FSAction.path : FSAction → Octets
  | .statMetadata p | .grep p | .find p | .list p | .read p | .write p | .stat p | .remove p | .removeFile p
  | .removeDir p | .removeAll p | .patch p | .append p | .copy _ p | .rename _ p | .mkdir p _ | .chmod p
  | .create p => p

def parseUint32 (s : Octets) : Option Nat :=
  if s = [] ∨ ¬ s.all fun b => 0x30 ≤ b && b ≤ 0x39 then
    none
  else
    let n := s.foldl (fun n b => 10 * n + (b.toNat - 0x30)) 0
    if n < 4294967296 then some n else none

namespace FSRequest

section Handlers

variable (query : List (Octets × Octets)) (path : Octets)

def handleDelete : Option FSAction :=
  let recursive := Url.has query (text "recursive")
  let kind := Url.get query (text "kind")
  if recursive then
    some (.removeAll path)
  else if kind = [] then
    some (.remove path)
  else if kind = text "file" then
    some (.removeFile path)
  else if kind = text "dir" then
    some (.removeDir path)
  else
    none

def handleCopy (srcPath : Octets) : Option FSAction :=
  if srcPath = [] then none else some (.copy srcPath path)

def handleRename (oldPath : Octets) : Option FSAction :=
  if oldPath = [] then none else some (.rename oldPath path)

def handleMkdir : Option FSAction :=
  some (.mkdir path ((parseUint32 (Url.get query (text "mode"))).getD 0o755))

end Handlers

def fsPath (urlPath : Octets) : Octets :=
  let path := trimPrefix urlPath (text "/v1/fs")
  if path = [] then text "/" else path

def handleFS (r : FSRequest) : Option FSAction :=
  let path := fsPath r.path
  let query := Url.parseQuery r.rawQuery
  match r.method with
  | .get =>
    if Url.has query (text "stat") then
      some (.statMetadata path)
    else if Url.has query (text "grep") then
      some (.grep path)
    else if Url.has query (text "find") then
      some (.find path)
    else if Url.has query (text "list") then
      some (.list path)
    else
      some (.read path)
  | .put => some (.write path)
  | .head => some (.stat path)
  | .delete => handleDelete query path
  | .patch => some (.patch path)
  | .post =>
    if Url.has query (text "append") then
      some (.append path)
    else if Url.has query (text "copy") then
      handleCopy path r.copySource
    else if Url.has query (text "rename") then
      handleRename path r.renameSource
    else if Url.has query (text "mkdir") then
      handleMkdir query path
    else if Url.has query (text "chmod") then
      some (.chmod path)
    else if Url.has query (text "create") then
      some (.create path)
    else
      none

theorem path_of_handleFS (h : handleFS r = some a) : a.path = fsPath r.path := by
  unfold handleFS handleDelete handleCopy handleRename handleMkdir at h
  dsimp only at h
  repeat' split at h
  all_goals cases h
  all_goals rfl

theorem fsPath_append (h : p ≠ []) : fsPath (text "/v1/fs" ++ p) = p := by
  unfold fsPath
  rw [trimPrefix_append]
  exact if_neg h

end FSRequest

end Server

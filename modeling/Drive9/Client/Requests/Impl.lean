import Drive9.Server.Requests
import Drive9.Datastore.Path

/-!
This module contains the requests that the client sends for a file operation.
-/

namespace Client

open Octets Server

structure Request where
  method : Method
  url : Octets
  copySource : Octets := []
  renameSource : Octets := []

inductive Call where
  | delete (path : Str)
  | deleteFile (path : Str)
  | deleteDir (path : Str)
  | removeAll (path : Str)
  | copy (srcPath dstPath : Str)
  | rename (oldPath newPath : Str)
  | mkdir (path : Str) (mode : UInt32)
  | write (path : Str)
  | read (path : Str)

section Build

variable (path : Str)

def url : Octets := text "/v1/fs" ++ ofChars (if path.head? = some '/' then path else '/' :: path)

def deleteCtx (recursive : Bool) (kind : String) : Request where
  method := .delete
  url :=
    if recursive then
      url path ++ text "?recursive=1"
    else if kind ≠ "" then
      url path ++ (text "?kind=" ++ text kind)
    else
      url path

def copyCtx (srcPath : Str) : Request where
  method := .post
  url := url path ++ text "?copy"
  copySource := ofChars srcPath

def renameCtx (oldPath : Str) : Request where
  method := .post
  url := url path ++ text "?rename"
  renameSource := ofChars oldPath

def mkdirCtx (mode : UInt32) : Request where
  method := .post
  url :=
    if mode ≠ 0o755 then
      url path ++ (text "?mkdir" ++ (text "&mode=" ++ ofChars (Nat.toDigits 10 mode.toNat)))
    else
      url path ++ text "?mkdir"

end Build

def Call.request : Call → Request
  | .delete path => deleteCtx path false ""
  | .deleteFile path => deleteCtx path false "file"
  | .deleteDir path => deleteCtx path false "dir"
  | .removeAll path => deleteCtx path true ""
  | .copy srcPath dstPath => copyCtx dstPath srcPath
  | .rename oldPath newPath => renameCtx newPath oldPath
  | .mkdir path mode => mkdirCtx path mode
  | .write path => { method := .put, url := url path }
  | .read path => { method := .get, url := url path }

def headerValue (v : Octets) : Option Octets :=
  if v.any fun b => Url.isCTL b && b ≠ 0x09 then none else some (trimBlanks v)

def transmit (r : Request) : Option FSRequest :=
  match Url.parse r.url, headerValue r.copySource, headerValue r.renameSource with
  | some u, some copySource, some renameSource =>
    if 0x20 ∈ u.rawQuery then
      none
    else
      some { method := r.method, path := u.path, rawQuery := u.rawQuery, copySource, renameSource }
  | _, _, _ => none

def Call.served (call : Call) : Option FSAction := (transmit call.request).bind FSRequest.handleFS

def Call.action : Call → FSAction
  | .delete path => .remove (ofChars path)
  | .deleteFile path => .removeFile (ofChars path)
  | .deleteDir path => .removeDir (ofChars path)
  | .removeAll path => .removeAll (ofChars path)
  | .copy srcPath dstPath => .copy (ofChars srcPath) (ofChars dstPath)
  | .rename oldPath newPath => .rename (ofChars oldPath) (ofChars newPath)
  | .mkdir path mode => .mkdir (ofChars path) mode.toNat
  | .write path => .write (ofChars path)
  | .read path => .read (ofChars path)

def Call.urlPath : Call → Str
  | .delete p | .deleteFile p | .deleteDir p | .removeAll p | .copy _ p | .rename _ p | .mkdir p _ | .write p
  | .read p => p

def Call.source? : Call → Option Str
  | .copy p _ | .rename p _ => some p
  | _ => none

end Client

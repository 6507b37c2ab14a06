import Drive9.Journal.Impl
import Drive9.Lib.FMap

/-!
This module contains the authorization of file requests by scoped tokens
(`pkg/server/fs_authorization.go`).
-/

namespace Server

open Journal (trimSpace)

abbrev FSOp := Str

def fsOpRead : FSOp := "read".toList
def fsOpList : FSOp := "list".toList
def fsOpSearch : FSOp := "search".toList
def fsOpWrite : FSOp := "write".toList
def fsOpDelete : FSOp := "delete".toList

def isKnownFSOp (op : FSOp) : Bool :=
  op == fsOpRead || op == fsOpList || op == fsOpSearch || op == fsOpWrite || op == fsOpDelete

inductive FSError where
  | accessDenied
  | invalidPath (err : PathError)
  deriving DecidableEq

inductive ScopeError where
  | emptyPrefix
  | normalizePrefix (raw : Str) (err : FSError)
  | unknownOp (op : FSOp)
  | emptyOps
  | searchRequiresRead
  deriving DecidableEq

structure FSScope where
  scopePrefix : Str
  ops : FMap FSOp Bool

def FSScope.has (scope : FSScope) (op : FSOp) : Bool := (scope.ops.get? op).getD false

structure TenantScope where
  isScoped : Bool
  fsScopes : List FSScope

structure APIKeyFSScope where
  rowPrefix : Str
  ops : Str

variable (nfc : Str → Str)

def normalizeFSAuthorizationPath (raw : Str) : Except FSError Str :=
  match Pathutil.canonicalize nfc (raw.trimPrefix [':']) with
  | .error err => .error (.invalidPath err)
  | .ok p => .ok p

def pathMatchesScope (scopePrefix p : Str) : Bool :=
  if scopePrefix = ['/'] then
    true
  else if p = scopePrefix then
    true
  else
    (scopePrefix ++ ['/']).isPrefixOf p

def scopeAllows (scope : FSScope) (op : FSOp) (p : Str) : Bool :=
  if op = fsOpSearch ∧ scope.has fsOpRead = false then
    false
  else if scope.has op = false then
    false
  else
    pathMatchesScope scope.scopePrefix p

def authorizeFS (s : Option TenantScope) (op : FSOp) (rawPath : Str) : Except FSError Unit :=
  match s with
  | none => .error .accessDenied
  | some s =>
    if s.isScoped = false then
      .ok ()
    else if isKnownFSOp op = false then
      .error .accessDenied
    else
      match normalizeFSAuthorizationPath nfc rawPath with
      | .error err => .error err
      | .ok p => if s.fsScopes.any (scopeAllows · op p) then .ok () else .error .accessDenied

def authorizeFSPair (s : Option TenantScope) (srcOp : FSOp) (srcPath : Str) (dstOp : FSOp)
    (dstPath : Str)
    : Except FSError Unit :=
  match authorizeFS nfc s srcOp srcPath with
  | .error err => .error err
  | .ok () => authorizeFS nfc s dstOp dstPath

def parseFSScopeOps.go (parts : List Str) (ops : FMap FSOp Bool)
    : Except ScopeError (FMap FSOp Bool) :=
  match parts with
  | [] => .ok ops
  | part :: parts =>
    let op := trimSpace part
    if op = [] then
      go parts ops
    else if isKnownFSOp op = false then
      .error (.unknownOp op)
    else
      go parts (ops.set op true)

def parseFSScopeOps (raw : Str) : Except ScopeError (FMap FSOp Bool) :=
  match parseFSScopeOps.go (raw.splitOn ',') .empty with
  | .error err => .error err
  | .ok ops =>
    if ops.isEmpty then
      .error .emptyOps
    else if (ops.get? fsOpSearch).getD false ∧ (ops.get? fsOpRead).getD false = false then
      .error .searchRequiresRead
    else
      .ok ops

def fsScopeFromMeta (row : APIKeyFSScope) : Except ScopeError FSScope :=
  if trimSpace row.rowPrefix = [] then
    .error .emptyPrefix
  else if trimSpace row.rowPrefix = [':'] then
    .error .emptyPrefix
  else
    match normalizeFSAuthorizationPath nfc row.rowPrefix with
    | .error err => .error (.normalizePrefix row.rowPrefix err)
    | .ok scopePrefix =>
      match parseFSScopeOps row.ops with
      | .error err => .error err
      | .ok ops => .ok { scopePrefix, ops }

def fsScopesFromMeta (rows : List APIKeyFSScope) : Except ScopeError (List FSScope) :=
  match rows with
  | [] => .ok []
  | row :: rows =>
    match fsScopeFromMeta nfc row with
    | .error err => .error err
    | .ok scope =>
      match fsScopesFromMeta rows with
      | .error err => .error err
      | .ok scopes => .ok (scope :: scopes)

end Server

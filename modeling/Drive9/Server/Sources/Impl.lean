import Drive9.Backend.Namespace.Impl
import Drive9.Datastore.Subtree
import Drive9.Server.Authorization.Impl

/-!
This module contains the handlers that get a second path from a header or from the body of the
request: copy, rename and the batch read of small files.
-/

namespace Server

open Datastore Backend Pathutil

inductive SourceError where
  | missingSource
  | unauthorized (err : FSError)
  | tooManyPaths
  | invalidPath (err : PathError)
  | notFound
  | notInlineStorage
  | tooLarge
  | backend (err : NamespaceError)
  deriving DecidableEq

structure ReadPlan where
  node : FileNode
  inlineData : List UInt8
  size : Int
  revision : Int

def maxBatchReadSmallPaths : Nat := 128

def maxBatchReadSmallBytes : Int := 50000

section Handlers

variable (nfc : Str → Str) (deterministicNodeID : Str → ID) (scope : Option TenantScope)
  (s : FileStore)

def answer (r : Backend.Result) : Except SourceError Unit × FileStore :=
  match r with
  | (.ok (), s) => (.ok (), s)
  | (.error err, s) => (.error (.backend err), s)

def handleCopy (nodeID : ID) (srcPath dstPath : Str) : Except SourceError Unit × FileStore :=
  if srcPath = [] then
    (.error .missingSource, s)
  else
    match authorizeFSPair nfc scope fsOpRead srcPath fsOpWrite dstPath with
    | .error err => (.error (.unauthorized err), s)
    | .ok () => answer (copyFileCtx deterministicNodeID nfc s nodeID srcPath dstPath)

def handleRename (oldPath newPath : Str) : Except SourceError Unit × FileStore :=
  if oldPath = [] then
    (.error .missingSource, s)
  else
    match authorizeFSPair nfc scope fsOpDelete oldPath fsOpWrite newPath with
    | .error err => (.error (.unauthorized err), s)
    | .ok () => answer (renameCtx deterministicNodeID nfc s oldPath newPath)

def validateBatchStatPath (rawPath : Str) : Except PathError Str :=
  if isDir rawPath then canonicalizeDir nfc rawPath else canonicalize nfc rawPath

-- The column `content_blob`, by the id of the file.
variable (blobs : ID → List UInt8)

def readInlinePlanCtx (path : Str) : Except SourceError ReadPlan :=
  match canonicalize nfc path with
  | .error err => .error (.invalidPath err)
  | .ok resolvedPath =>
    match s.db.node? resolvedPath with
    | none => .error .notFound
    | some node =>
      if node.isDirectory then
        .error .notFound
      else
        match (node.inodeID.or node.fileID).bind fun id => (s.db.confirmedMeta id).map ((id, ·)) with
        | none => .error .notFound
        | some (id, storageMeta) =>
          if storageMeta.storageType ≠ .db9 then
            .error .notInlineStorage
          else
            .ok { node, inlineData := blobs id, size := storageMeta.sizeBytes, revision := storageMeta.revision }

def batchReadSmallOne (rawPath : Str) (maxBytes : Int) : Except SourceError ReadPlan :=
  match validateBatchStatPath nfc rawPath with
  | .error err => .error (.invalidPath err)
  | .ok _ =>
    match readInlinePlanCtx nfc s blobs rawPath with
    | .error err => .error err
    | .ok plan =>
      if plan.size > maxBytes ∨ plan.inlineData.length > maxBytes then .error .tooLarge else .ok plan

def handleBatchReadSmall (paths : List Str) (maxBytes : Int)
    : Except SourceError (List (Except SourceError ReadPlan)) :=
  if paths.length > maxBatchReadSmallPaths then
    .error .tooManyPaths
  else
    let maxBytes := if maxBytes ≤ 0 ∨ maxBytes > maxBatchReadSmallBytes then maxBatchReadSmallBytes else maxBytes
    .ok (paths.map fun path =>
      match authorizeFS nfc scope fsOpRead path with
      | .error err => .error (.unauthorized err)
      | .ok () => batchReadSmallOne nfc s blobs path maxBytes)

end Handlers

inductive SourceRequest where
  | copy (dstPath : Str)
  | rename (newPath : Str)
  | batchRead

namespace SourceRequest

def sourceOp (req : SourceRequest) : FSOp :=
  match req with
  | .copy _ => fsOpRead
  | .rename _ => fsOpDelete
  | .batchRead => fsOpRead

section Touched

variable (nfc : Str → Str) (deterministicNodeID : Str → ID)

def authorize (scope : Option TenantScope) (req : SourceRequest) (r : Str) : Except FSError Unit :=
  match req with
  | .copy dstPath => authorizeFSPair nfc scope req.sourceOp r fsOpWrite dstPath
  | .rename newPath => authorizeFSPair nfc scope req.sourceOp r fsOpWrite newPath
  | .batchRead => authorizeFS nfc scope req.sourceOp r

def named (s : FileStore) (req : SourceRequest) (r : Str) : Option FileNode :=
  match req with
  | .copy dstPath =>
    match canonicalize nfc r, canonicalize nfc dstPath with
    | .ok srcPath, .ok _ => if r = [] then none else s.db.node? srcPath
    | _, _ => none
  | .rename _ => if r = [] then none else (resolveNodePath nfc s.db r).map Prod.snd
  | .batchRead =>
    match canonicalize nfc r with
    | .error _ => none
    | .ok resolvedPath => s.db.node? resolvedPath

def moved (s : FileStore) (req : SourceRequest) (r : Str) : List FileNode :=
  match req with
  | .copy _ => []
  | .rename newPath =>
    if r = [] then
      []
    else
      match resolveNodePath nfc s.db r with
      | none => []
      | some (oldPath, node) =>
        let newPath := canonicalizePathForKind nfc newPath node.isDirectory
        if oldPath = newPath then
          []
        else if node.isDirectory then
          selected oldPath (ensureParentDirs deterministicNodeID s newPath).db
        else
          [node]
  | .batchRead => []

end Touched

end SourceRequest

end Server

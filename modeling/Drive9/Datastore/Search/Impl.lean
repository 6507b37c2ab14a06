import Drive9.Datastore.Namespace
import Drive9.Journal.Impl

/-!
This module contains the searches of `pkg/datastore/search.go`.
-/

namespace Datastore

open Journal (trimSpace)

structure SearchResult where
  path : Str
  name : Str
  sizeBytes : Int
  score : Option Float

abbrev Embedding := List Float32

structure Semantic where
  contentText : Option Str
  description : Option Str
  embedding : Option Embedding
  embeddingRevision : Option Int
  descriptionEmbedding : Option Embedding
  descriptionEmbeddingRevision : Option Int

structure FileTag where
  fileID : ID
  tagKey : Str
  tagValue : Str

structure SearchTables where
  db : Db
  confirmedAt : FMap ID Int
  semantic : FMap ID Semantic
  fileTags : List FileTag

structure Engine where
  -- `VEC_EMBED_COSINE_DISTANCE`; the parameter is a formatted vector or a text that is still to be
  -- embedded
  vecEmbedCosineDistance : Embedding → Str → Float
  -- the word stands between quotes in the query
  ftsMatchWord : Str → Str → Float
  -- `strconv.FormatFloat` in its shortest form
  formatFloat : Float32 → Str

structure FindFilter where
  pathPrefix : Str
  nameGlob : Str
  tagKey : Str
  tagValue : Str
  after : Option Int
  before : Option Int
  minSize : Int
  maxSize : Int
  limit : Int

def vectorScoreThreshold : Float := 0.3

def rrfK : Float := 60.0

def subtreeCond (pathPrefix path : Str) : Bool :=
  let pathPrefix := if pathPrefix ≠ ['/'] then pathPrefix.rdropWhile (· = '/') else pathPrefix
  path = pathPrefix || Like.accepts (pathPrefix ++ "/%".toList) path

def pathCond (pathPrefix path : Str) : Bool :=
  if pathPrefix ≠ [] ∧ pathPrefix ≠ ['/'] then subtreeCond pathPrefix path else true

structure InodeRow where
  node : FileNode
  inodeID : ID
  inode : Inode

namespace SearchTables

def inodeRow (t : SearchTables) (n : FileNode) : Option InodeRow := do
  let inodeID ← n.inodeID.or n.fileID
  let inode ← t.db.inodes.get? inodeID
  return { node := n, inodeID, inode }

def inodeRows (t : SearchTables) : List InodeRow := t.db.fileNodes.filterMap t.inodeRow

end SearchTables

namespace InodeRow

def found (pathPrefix : Str) (r : InodeRow) : Bool :=
  r.inode.status = .confirmed && pathCond pathPrefix r.node.path

def result (r : InodeRow) (score : Option Float) : SearchResult :=
  { path := r.node.path, name := r.node.name, sizeBytes := r.inode.sizeBytes, score }

end InodeRow

def limitRows (limit : Int) (rows : List α) : Except StoreError (List α) :=
  if limit < 0 then .error .driver else .ok (rows.take limit.toNat)

def formatVector (engine : Engine) (v : Embedding) : Str :=
  if v = [] then
    []
  else
    let texts := v.map fun f => if f.isNaN || f.isInf then ['0'] else engine.formatFloat f
    '[' :: [','].intercalate texts ++ [']']

structure EmbeddingColumns where
  embedding : Semantic → Option Embedding
  revision : Semantic → Option Int

def contentEmbedding : EmbeddingColumns := ⟨Semantic.embedding, Semantic.embeddingRevision⟩

def descriptionEmbedding : EmbeddingColumns :=
  ⟨Semantic.descriptionEmbedding, Semantic.descriptionEmbeddingRevision⟩

namespace SearchTables

variable (engine : Engine) (t : SearchTables)

def vectorRow (columns : EmbeddingColumns) (gated : Bool) (vecParam pathPrefix : Str) (r : InodeRow)
    : Option (InodeRow × Float) := do
  let s ← t.semantic.get? r.inodeID
  let v ← columns.embedding s
  if r.found pathPrefix && (!gated || columns.revision s = some r.inode.revision) then
    some (r, engine.vecEmbedCosineDistance v vecParam)
  else
    none

def vectorQuery (columns : EmbeddingColumns) (gated : Bool) (vecParam pathPrefix : Str)
    (limit : Int)
    : Except StoreError (List (InodeRow × Float)) :=
  let rows := t.inodeRows.filterMap (t.vectorRow engine columns gated vecParam pathPrefix)
  limitRows limit (rows.insertionSort fun a b => a.2 ≤ b.2)

def runVectorSearch (rows : Except StoreError (List (InodeRow × Float)))
    : Except StoreError (List SearchResult) :=
  match rows with
  | .error err => .error err
  | .ok rows =>
    .ok (rows.filterMap fun (r, dist) =>
      let sc := 1.0 - dist
      if sc < vectorScoreThreshold then none else some (r.result (some sc)))

def searchByVector (columns : EmbeddingColumns) (queryEmbedding : Embedding) (pathPrefix : Str)
    (limit : Int)
    : Except StoreError (List SearchResult) :=
  if queryEmbedding = [] then
    .ok []
  else
    runVectorSearch (t.vectorQuery engine columns true (formatVector engine queryEmbedding) pathPrefix limit)

def searchByText (columns : EmbeddingColumns) (queryText pathPrefix : Str) (limit : Int)
    : Except StoreError (List SearchResult) :=
  if trimSpace queryText = [] then
    .ok []
  else
    runVectorSearch (t.vectorQuery engine columns false queryText pathPrefix limit)

def vectorSearch : Embedding → Str → Int → Except StoreError (List SearchResult) :=
  t.searchByVector engine contentEmbedding

def vectorSearchByText : Str → Str → Int → Except StoreError (List SearchResult) :=
  t.searchByText engine contentEmbedding

def vectorSearchDescription : Embedding → Str → Int → Except StoreError (List SearchResult) :=
  t.searchByVector engine descriptionEmbedding

def vectorSearchDescriptionByText : Str → Str → Int → Except StoreError (List SearchResult) :=
  t.searchByText engine descriptionEmbedding

end SearchTables

def removePair (a b : Char) (s : Str) : Str :=
  match s with
  | x :: y :: s => if x = a ∧ y = b then removePair a b s else x :: removePair a b (y :: s)
  | s => s

def double (c : Char) (s : Str) : Str := s.flatMap fun x => if x = c then [c, c] else [x]

def remove (c : Char) (s : Str) : Str := s.filter (· ≠ c)

def ftsSafe (s : Str) : Str :=
  let s := double '\\' s
  let s := double '\'' s
  let s := remove ';' s
  let s := removePair '-' '-' s
  let s := removePair '/' '*' s
  let s := removePair '*' '/' s
  remove '\x00' s

namespace SearchTables

variable (engine : Engine) (t : SearchTables)

def ftsScore (safe : Str) (s : Semantic) : Option Float :=
  let scores := [s.contentText, s.description].filterMap fun text => do
    let score := engine.ftsMatchWord safe (← text)
    if score == 0 then none else some score
  match scores with
  | [] => none
  | score :: scores => some (scores.foldl (fun a b => if a < b then b else a) score)

def ftsInner (safe : Str) (limit : Int) : Except StoreError (List (ID × Float)) :=
  let rows := t.semantic.toList.filterMap fun (inodeID, s) => (ftsScore engine safe s).map fun score => (inodeID, score)
  limitRows limit (rows.insertionSort fun a b => a.2 ≥ b.2)

def ftsSearch (query pathPrefix : Str) (limit : Int) : Except StoreError (List SearchResult) :=
  match t.ftsInner engine (ftsSafe query) limit with
  | .error err => .error err
  | .ok fts =>
    .ok (fts.flatMap fun (inodeID, score) =>
      (t.inodeRows.filter fun r => r.inodeID = inodeID && r.found pathPrefix).map fun r => r.result (some score))

def confirmedAfter (a b : InodeRow) : Bool :=
  match t.confirmedAt.get? a.inodeID, t.confirmedAt.get? b.inodeID with
  | _, none => true
  | none, some _ => false
  | some x, some y => x ≥ y

def keywordCond (query : Str) (r : InodeRow) : Bool :=
  (t.semantic.get? r.inodeID).any fun s => s.contentText.any fun text => Like.accepts ('%' :: query ++ ['%']) text

def keywordSearch (query pathPrefix : Str) (limit : Int) : Except StoreError (List SearchResult) :=
  let rows := t.inodeRows.filter fun r => r.found pathPrefix && t.keywordCond query r
  match limitRows limit (rows.insertionSort fun a b => t.confirmedAfter a b) with
  | .error err => .error err
  | .ok rows => .ok (rows.map fun r => r.result none)

def tagCond (f : FindFilter) (r : InodeRow) : Bool :=
  if f.tagKey = [] then
    true
  else
    t.fileTags.any fun tag =>
      tag.fileID = r.inodeID && tag.tagKey = f.tagKey && (f.tagValue = [] || tag.tagValue = f.tagValue)

def findCond (f : FindFilter) (r : InodeRow) : Bool :=
  let pattern := f.nameGlob.map fun c => if c = '*' then '%' else if c = '?' then '_' else c
  !r.node.isDirectory
    && (f.nameGlob = [] || Like.accepts pattern r.node.name)
    && t.tagCond f r
    && f.after.all (fun time => (t.confirmedAt.get? r.inodeID).any (· > time))
    && f.before.all (fun time => (t.confirmedAt.get? r.inodeID).any (· < time))
    && (f.minSize ≤ 0 || r.inode.sizeBytes ≥ f.minSize)
    && (f.maxSize ≤ 0 || r.inode.sizeBytes ≤ f.maxSize)

def find (f : FindFilter) : Except StoreError (List SearchResult) :=
  let limit := if f.limit ≤ 0 ∨ f.limit > 1000 then 100 else f.limit
  let rows := t.inodeRows.filter fun r => r.found f.pathPrefix && t.findCond f r
  match limitRows limit (rows.insertionSort fun a b => a.node.path ≤ b.node.path) with
  | .error err => .error err
  | .ok rows => .ok (rows.map fun r => r.result none)

end SearchTables

def addRanks (scores : FMap Str Float) (results : List SearchResult) : FMap Str Float :=
  results.zipIdx.foldl
    (fun scores (r, rank) =>
      scores.set r.path ((scores.get? r.path).getD 0 + 1.0 / (rrfK + Float.ofNat (rank + 1))))
    scores

def byScore (a b : SearchResult) : Bool := a.score.getD 0 > b.score.getD 0

def rrfMerge (fts vec : List SearchResult) (limit : Nat) : List SearchResult :=
  let scores := addRanks (addRanks .empty fts) vec
  let all : FMap Str SearchResult := fts.foldl (fun all r => all.set r.path r) .empty
  let all := vec.foldl (fun all r => if (all.get? r.path).isSome then all else all.set r.path r) all
  let merged := all.toList.map fun e => { e.2 with score := some ((scores.get? e.2.path).getD 0) }
  (merged.insertionSort fun a b => byScore a b).take limit

end Datastore

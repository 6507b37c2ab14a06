import Drive9.Datastore.Path

/-!
This module contains the tenants of `pkg/meta`, as far as their life cycle is concerned.
-/

namespace Meta

abbrev TenantID := Str

inductive TenantStatus where
  | provisioning
  | active
  | failed
  | suspended
  | deleting
  | deleted
  deriving DecidableEq

inductive TenantKind where
  | live
  | fork
  deriving DecidableEq

structure S3EncryptionPolicy where
  mode : Str
  kmsKeyID : Str
  bucketKeyEnabled : Bool
  deriving DecidableEq

end Meta

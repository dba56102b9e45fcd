/-
  Core/Items.lean --- the vault's items beside the database: what an operation writes to
  both and reads back by title (`services/ca.rs`, `op.rs`).

  A call that fails leaves the vault as it was.
-/
import Opca.Core.Domains
import Opca.Foundation.Part
import Opca.Foundation.Titled

set_option autoImplicit false

namespace Opca.Core

open Opca.Foundation Acme

/-- A certificate that an item holds. -/
structure Certificate where
  serial : String
  attribs : CertAttribs
  constraints : Option NameConstraints
  deriving DecidableEq

/-- The fields that are read of an item. -/
structure Fields where
  certificate : Option Certificate
  privateKey : Option String
  csr : Option String
  deriving DecidableEq

/-- The database in memory, the vault's items and its `CA_Database` document, and what
has happened that leaves no trace in them. -/
structure Vaulted (η : Type) where
  db : CaDatabase
  items : Items Fields
  stored : Tables
  log : List η

abbrev VaultM (η : Type) := EStateM OpcaError (Vaulted η)

variable {η α : Type}

/-- The database, of the whole. -/
def database : Part (Vaulted η) CaDatabase where
  get := Vaulted.db
  set db s := { s with db }
  get_set _ _ := rfl
  set_set _ _ _ := rfl

def onVaulted (m : DbM α) : VaultM η α := database.lift m

/-- Something happens. -/
def note (event : η) : VaultM η Unit :=
  modify fun s => { s with log := s.log ++ [event] }

/-- Makes an item, whatever others have its title. -/
def createItem (title : String) (fields : Fields) (created : Except OpcaError Unit) :
    VaultM η Unit := do
  outcome created
  modify fun s => { s with items := s.items.create title fields }

/-- Writes the database over the document. -/
def storeCaDatabase (stored : Except OpcaError Unit) : VaultM η Unit := do
  outcome stored
  modify fun s => { s with stored := s.db.tables }

/-- The certificate in the item that a title names; none if it cannot be had. -/
def retrieveCertbundle (title : String) (read : Except OpcaError Unit) :
    VaultM η (Option Certificate) := do
  let s ← get
  match read with
  | .ok () => return (s.items.find title).bind (·.content.certificate)
  | .error _ => return none

/-- A certificate's item, and its row; `own` is whether the CA's key signed it. -/
def storeBundle (own : Bool) (record : CertRecord) (itemTitle : String) (fields : Fields)
    (stored : Except OpcaError Unit) (add : DbM Unit) : VaultM η Unit := do
  createItem itemTitle fields stored
  onVaulted (storeCertbundle.giveItem own record)
  onVaulted add

/-! ## To the database alone -/

theorem createItem_follows (title : String) (fields : Fields)
    (created : Except OpcaError Unit) :
    database.Follows (createItem title fields created : VaultM η Unit) (outcome created) := by
  intro s
  cases created <;> rfl

theorem storeBundle_follows (own : Bool) (record : CertRecord) (itemTitle : String)
    (fields : Fields) (stored : Except OpcaError Unit) (add : DbM Unit) :
    database.Follows (storeBundle own record itemTitle fields stored add : VaultM η Unit)
      (storeCertbundle own record stored add) :=
  (createItem_follows _ _ _).bind fun _ => (Part.Follows.lift _).bind fun _ => .lift _

end Opca.Core

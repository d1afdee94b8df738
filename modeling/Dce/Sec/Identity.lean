import Dce.Rpc.Uuid

open lib dce.rpc

namespace dce.sec

/-- `sec_id_t`, with the identifier in the form that its reader has. -/
structure sec_id_t (υ : Type) where
  uuid : υ
  deriving DecidableEq

/-- `sec_id_foreign_t`: an identity from a foreign realm. -/
structure sec_id_foreign_t (υ : Type) where
  id : sec_id_t υ
  realm : sec_id_t υ
  deriving DecidableEq

/-- `sec_id_foreign_groupset_t`: groups of one foreign cell. -/
structure sec_id_foreign_groupset_t (υ : Type) where
  realm : sec_id_t υ
  groups : List (sec_id_t υ)
  deriving DecidableEq

/-- `sec_id_pa_t`: the privilege attributes in an extended PAC. -/
structure sec_id_pa_t (υ : Type) where
  realm : sec_id_t υ
  principal : sec_id_t υ
  group : sec_id_t υ
  groups : List (sec_id_t υ)
  foreign_groupsets : List (sec_id_foreign_groupset_t υ)
  deriving DecidableEq

end dce.sec

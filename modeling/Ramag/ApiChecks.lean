import Ramag.Domain

/-!
The checks of texts that the API entities share.
-/
namespace Ramag.ApiChecks
open Strings Domain
variable (label value : Text)

def validateText (limit : Nat) (singleLine : Bool) : Except Text Unit :=
  if byteLen value > limit then .error (label ++ "超过 " ++ natText limit ++ " bytes 上限")
  else if singleLine = true ∧ ('\r' ∈ value ∨ '\n' ∈ value) then .error (label ++ "不能包含换行")
  else if value.any fun c => isControl c && (singleLine || !(c == '\r' || c == '\n')) then .error (label ++ "包含不允许的控制字符")
  else .ok ()

def validateRequiredText (limit : Nat) : Except Text Unit :=
  if trim value = [] then .error (label ++ "不能为空") else validateText label value limit true

def validateProtocolName (limit : Nat) : Except Text Unit := do
  validateRequiredText label value limit
  if value.any fun c => isWhitespace c || isControl c || c == ':' then .error (label ++ "包含空白、控制字符或 ':'")
  else .ok ()

end Ramag.ApiChecks

import RingOverlay.Rpc.Basic
/-!
The handlers of inbound calls by method name.
-/

set_option autoImplicit false
set_option relaxedAutoImplicit false

namespace RingOverlay

universe u

structure RpcRegistry (Handler : Type u) where
  handlers : List (String × Handler)

namespace RpcRegistry

variable {Handler : Type u}

def empty : RpcRegistry Handler := ⟨[]⟩

def get? (r : RpcRegistry Handler) (method : String) : Option Handler := r.handlers.lookup method

def contains (r : RpcRegistry Handler) (method : String) : Bool := (r.get? method).isSome

def register (r : RpcRegistry Handler) (method : String) (h : Handler) : RpcRegistry Handler :=
  ⟨(method, h) :: r.handlers.filter (·.1 != method)⟩

def unregister (r : RpcRegistry Handler) (method : String) : RpcRegistry Handler :=
  ⟨r.handlers.filter (·.1 != method)⟩

def handlerFor (r : RpcRegistry Handler) (method : String) : Except RpcError Handler :=
  match r.get? method with
  | some h => .ok h
  | none => .error (.noHandler method)

end RpcRegistry

end RingOverlay

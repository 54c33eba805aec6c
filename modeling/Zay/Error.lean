/-! `std::io::Error` as the program builds it: a kind and a message. -/

namespace Zay

/-- The `io::ErrorKind`s the modelled code raises. -/
inductive ErrorKind where
  | addrNotAvailable
  | brokenPipe
  | connectionAborted
  | connectionReset
  | invalidInput
  | invalidData
  | notFound
  | permissionDenied
  | timedOut
  | unexpectedEof
  | unsupported
  | other
  deriving Repr, DecidableEq

structure IoError where
  kind : ErrorKind
  message : String
  deriving Repr, DecidableEq

abbrev IoResult := Except IoError

end Zay

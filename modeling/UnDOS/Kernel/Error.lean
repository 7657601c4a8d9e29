import Mathlib.Tactic.Common

/-!
# Kernel Error Codes

The error codes of `kerror.hpp`.  `Success` is not a member: a routine that
returns no error is modeled by its value, not by a code.
-/

namespace UnDOS.Kernel

/-- `kernel::KernelError`, without `Success`. -/
inductive KernelError where
  | unknown
  -- Arguments, sizes and representation.
  | invalidArgument | invalidSize | invalidAlignment | invalidOffset | outOfRange
  | arithmeticOverflow | nameTooLong | bufferTooSmall | invalidFormat | tooManyArguments
  -- Memory and bounded resources.
  | invalidAddress | outOfMemory | addressSpaceExhausted | resourceLimitExceeded
  | queueFull | resourceConflict
  -- Handles, lookup, access and relationships.
  | invalidHandle | wrongObjectType | notFound | alreadyExists | accessDenied
  | alreadyAttached | parentMismatch
  -- Execution context, lifecycle and availability.
  | invalidState | notInitialized | noCurrentThread | noCurrentProcess | unsupported
  | notImplemented | deviceNotReady | standardStreamUnavailable | notWaitable
  -- Waiting and nonblocking operations.
  | timeout | wouldBlock
  -- I/O, stored data and executable loading.
  | ioError | deviceError | unexpectedEndOfFile | invalidData | invalidResource
  | notDirectory | invalidExecutable | unresolvedSymbol | processStartupFailed | retry
deriving DecidableEq

end UnDOS.Kernel

import Mathlib.Data.Int.Notation

/-!
# Error numbers

The `errno` values the device server and the CPP library return, negated, from their
functions.
-/

namespace NfpUdpEcho.Errno

def EPERM : ℤ := 1
def ENOENT : ℤ := 2
def EIO : ℤ := 5
def E2BIG : ℤ := 7
def EAGAIN : ℤ := 11
def ENOMEM : ℤ := 12
def EACCES : ℤ := 13
def EFAULT : ℤ := 14
def EBUSY : ℤ := 16
def EEXIST : ℤ := 17
def ENODEV : ℤ := 19
def ENOTDIR : ℤ := 20
def EINVAL : ℤ := 22
def EMFILE : ℤ := 24
def ETXTBSY : ℤ := 26
def ENOSYS : ℤ := 38
def EOPNOTSUPP : ℤ := 95
def ETIMEDOUT : ℤ := 110

end NfpUdpEcho.Errno

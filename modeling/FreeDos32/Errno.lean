namespace FreeDos32

/-- The error codes of `errno.h` that the modelled functions return, negated. -/
inductive Errno where
  | eperm | enoent | eio | enxio | ebadf | enomem | eacces | efault | ebusy | eexist | enotdir
  | eisdir | einval | efbig | enospc | eftype | enmfile | enotempty | enametoolong | eilseq | enodev
  | erofs | enotsup
  deriving DecidableEq

end FreeDos32
